import RemoteCall.Proofs.Client.Sessions
import RemoteCall.Proofs.Endpoint.Parameters

/-! Both sides of an association agree on it (`Client.agreement_after_bind`). A bind that succeeds
makes them agree, whatever was before it, and no call changes anything about that, however it
ends. -/

namespace RemoteCall

/-- The association is one with the service, as the endpoint has it. -/
structure Association.AgreedWith (a : Association) (s : Service) (e : Endpoint) : Prop where
  context : e.acceptedContext? a.contextId = some a.transferSyntax
  service : e.service = some s
  interface : a.interface.id = s.interface.id
  group : e.group = some a.group
  nonzero : a.group ≠ 0

theorem Association.AgreedWith.withAssembly {a : Association} {s : Service} {e : Endpoint}
    (h : a.AgreedWith s e) (assembly : Assembly) : a.AgreedWith s { e with assembly } :=
  ⟨h.context, h.service, h.interface, h.group, h.nonzero⟩

/-- Both sides agree when the unit passes, and it is no longer than they agreed on. -/
def Passage.AgreesWith (a : Association) (s : Service) (config : ClientConfig) :
    Passage PipeLink → Prop
  | sent data l => a.AgreedWith s l.pipe.endpoint ∧
      data.length ≤ l.pipe.endpoint.maxReceive.toNat
  | received data l => a.AgreedWith s l.pipe.endpoint ∧
      data.length ≤ (max config.maxReceive minFragment).toNat

namespace Client

variable {s : Service} {config : ClientConfig} {c : Client} {a : Association} {e : Endpoint}

/-! ## A bind -/

/-- What a client associates with is what the endpoint has granted. -/
theorem agreedWith_of_associate {g : GroupAllocator} {p : Proposal} {callId : UInt32}
    {i : Interface} (hp : p = proposal config callId i) (hservice : e.boundService p = some s)
    (hg : g.next ≠ 0) (h : associate i p (e.bindAck g p) = .ok a) :
    a.AgreedWith s (e.bound g p) ∧ a.maxTransmit.toNat ≤ (e.bound g p).maxReceive.toNat ∧
      (e.bound g p).maxTransmit = max config.maxReceive minFragment := by
  unfold associate at h
  split at h
  · rename_i context answer hfind
    cases h
    have hmem := List.mem_of_find?_eq_some hfind
    have hids : (p.contexts.map (·.id)).Nodup := by
      rw [hp]
      exact proposal_ids config callId i
    have haccepted : answer.isAccepted = true :=
      List.find?_some (p := fun x : Context × ContextAnswer => x.2.isAccepted) hfind
    obtain ⟨hcontext, s', hs', hinterface⟩ := Endpoint.acceptedContext_bound hids hmem haccepted
    obtain rfl := Option.some.inj (hs'.symm.trans hservice)
    have hproposed : context.abstractSyntax = i.id := by
      obtain ⟨hin, -⟩ := List.of_mem_zip hmem
      rw [hp] at hin
      rcases List.mem_cons.mp hin with rfl | hin
      · rfl
      · cases List.mem_singleton.mp hin
        rfl
    have hnonzero : (e.bindAck g p).group ≠ 0 := by
      have hgroup : (e.bindAck g p).group = g.allocate.1 := by
        refine (Acknowledgement.ofBind_group g _ p).trans (if_pos ?_)
        rw [hp]
        rfl
      rw [hgroup]
      exact hg
    have hreceive : p.maxReceive = config.maxReceive := by
      rw [hp]
      rfl
    refine ⟨⟨hcontext, hservice, ?_, rfl, hnonzero⟩, toNat_min_le _ _, ?_⟩
    · exact hproposed.symm.trans hinterface.symm
    · rw [← hreceive]
      rfl
  · split at h <;> cases h

/-! ## Calls after it -/

/-- What stays as it is from a bind to the next one. -/
structure Conforms (a : Association) (s : Service) (config : ClientConfig) (e : Endpoint)
    (st : Client × Traced PipeLink) : Prop where
  association : st.1.association = some a
  receptive : Receptive st.2.link
  endpoint : ∃ assembly, st.2.link.pipe.endpoint = { e with assembly }
  /-- The units that wait for the client. -/
  queue : ∃ bs : List (List UInt8), st.2.link.pipe.outbound = bs.flatten ∧
    ∀ b ∈ bs, (∃ u : Pdu, u.Written b) ∧ b.length ≤ e.maxTransmit.toNat
  trace : ∀ x ∈ st.2.trace, x.AgreesWith a s config

namespace Conforms

variable {l : Traced PipeLink}

theorem withCallId (h : Conforms a s config e (c, l)) (callId : UInt32) :
    Conforms a s config e ({ c with callId }, l) :=
  ⟨h.association, h.receptive, h.endpoint, h.queue, h.trace⟩

theorem withGroups (h : Conforms a s config e (c, l)) (groups : GroupAllocator) :
    Conforms a s config e (c, { l with link := l.link.withGroups groups }) :=
  ⟨h.association, h.receptive.withGroups groups, h.endpoint, h.queue, h.trace⟩

variable (hagreed : a.AgreedWith s e) (hmax : e.maxTransmit = max config.maxReceive minFragment)
include hagreed hmax

/-- One step: a unit is taken out of the queue, or there is none. -/
theorem receive (h : Conforms a s config e (c, l)) :
    Conforms a s config e (c, (PipeLink.transport.traced.receive l).2) := by
  obtain ⟨assembly, hendpoint⟩ := h.endpoint
  obtain ⟨bs, hout, hbs⟩ := h.queue
  cases bs with
  | nil =>
    obtain ⟨err, hnone⟩ := PipeLink.receive_empty hout
    simp only [Transport.traced, hnone]
    exact h
  | cons b bs =>
    obtain ⟨⟨⟨u, hu⟩, hlength⟩, hbs⟩ := List.forall_mem_cons.mp hbs
    have hunit := PipeLink.receive_unit hu h.receptive.connected (hout.trans List.flatten_cons)
    simp only [Transport.traced, hunit]
    refine ⟨h.association, h.receptive.withQueue _, ⟨assembly, hendpoint⟩, ⟨bs, rfl, hbs⟩, ?_⟩
    refine List.forall_mem_append.mpr ⟨h.trace, List.forall_mem_singleton.mpr ⟨?_, ?_⟩⟩
    · rw [show (l.link.withQueue bs.flatten).pipe.endpoint = _ from hendpoint]
      exact hagreed.withAssembly assembly
    · rw [← hmax]
      exact hlength

/-- One step: a fragment of a request is taken in, and its answers are queued. -/
theorem send (hreceive : a.maxTransmit.toNat ≤ e.maxReceive.toNat)
    (h : Conforms a s config e (c, l)) {r : Request} {data : List UInt8}
    (hdata : (Pdu.request r).Written data) (hmajor : r.header.major = Header.version)
    (hlength : data.length ≤ a.maxTransmit.toNat) :
    Conforms a s config e (c, (PipeLink.transport.traced.send data l).2) := by
  obtain ⟨assembly, hendpoint⟩ := h.endpoint
  obtain ⟨bs, hout, hbs⟩ := h.queue
  let t := l.link.pipe.endpoint.process l.link.groups data
  have htransmit : l.link.pipe.endpoint.maxTransmit = e.maxTransmit := by rw [hendpoint]
  have hroom : minFragment.toNat ≤ e.maxTransmit.toNat := by
    rw [hmax]
    exact (le_toNat_max _ _).2
  obtain ⟨⟨assembly', hkept⟩, hanswers⟩ := Endpoint.process_request_kept
    (e := l.link.pipe.endpoint) (g := l.link.groups) hdata hmajor
    (Nat.le_trans (by decide) (htransmit ▸ hroom))
  -- A fragment whose answers cannot be written is taken in all the same.
  have hsent : ∃ result answers,
      PipeLink.transport.send data l.link = (result, l.link.answered t answers) ∧
      ∀ b ∈ answers, (∃ u : Pdu, u.Written b) ∧ b.length ≤ e.maxTransmit.toNat := by
    cases hresult : t.answers with
    | error err => exact ⟨_, [], PipeLink.send_unit_error hdata h.receptive.connected
        h.receptive.inbound h.receptive.size hresult, List.forall_mem_nil _⟩
    | ok answers => exact ⟨_, answers, PipeLink.send_unit hdata h.receptive.connected
        h.receptive.inbound h.receptive.size hresult, htransmit ▸ hanswers answers hresult⟩
  obtain ⟨result, answers, hsend, hshort⟩ := hsent
  have hafter : t.endpoint = { e with assembly := assembly' } := by
    rw [hkept, hendpoint]
  simp only [Transport.traced, hsend]
  refine ⟨h.association, h.receptive.answered answers ?_, ⟨assembly', hafter⟩,
    ⟨bs ++ answers, ?_, List.forall_mem_append.mpr ⟨hbs, hshort⟩⟩, ?_⟩
  · rw [hafter]
    exact Nat.lt_of_lt_of_le (by decide) hroom
  · rw [List.flatten_append, ← hout]
    rfl
  · refine List.forall_mem_append.mpr ⟨h.trace, List.forall_mem_singleton.mpr ?_⟩
    simp only [Passage.AgreesWith, PipeLink.answered, Pipe.answered, hafter]
    exact ⟨hagreed.withAssembly assembly', Nat.le_trans hlength hreceive⟩

/-- A call, however it ends. -/
theorem preserves_call (hreceive : a.maxTransmit.toNat ≤ e.maxReceive.toNat) (opnum : UInt16)
    (stub : List UInt8) :
    Preserves (Conforms a s config e) (call PipeLink.transport.traced opnum stub) := by
  refine .call (fun c l callId h => h.withCallId callId) ?_ fun c l h => h.receive hagreed hmax
  intro c l a' callId rs h ha' hrs r hr data hdata
  obtain rfl : a = a' := Option.some.inj (h.association.symm.trans ha')
  obtain ⟨hwritten, hmajor, hlength⟩ := written_of_fragments hrs hr hdata
  exact h.send hagreed hmax hreceive hwritten hmajor hlength

end Conforms

/-- **Both sides agree on the association.** A client talks through a pipe that was just opened and
that it has for itself, to any service. Whatever it did before, once a bind succeeds, and until the
next one, its association is with the service, in the group of the endpoint and on a context that
the endpoint has accepted with the same transfer syntax. So it is whenever a unit passes; what the
client sends is never longer than the endpoint takes, and what it receives never longer than it
asked for, or than the floor. -/
theorem agreement_after_bind (s : Service) (id : Nat) (name path : String) (groups : GroupAllocator)
    (c : Client) (before later : List (GroupAllocator × Operation)) (i : Interface)
    {g : GroupAllocator} (hg : g.next ≠ 0) {c₁ c₂ : Client} {l₁ l₂ : PipeLink}
    (hbefore : conduct PipeLink.transport PipeLink.withGroups before
      (c, .of path (.of id name (.ofService s)) groups) = (c₁, l₁))
    (hbind : bind PipeLink.transport i (c₁, l₁.withGroups g) = .ok a (c₂, l₂))
    (hlater : ∀ x ∈ later, x.2.isBind = false) :
    let now := conduct PipeLink.transport PipeLink.withGroups later (c₂, l₂)
    let traced := conduct PipeLink.transport.traced
      (fun g l => { l with link := l.link.withGroups g }) later (c₂, ⟨l₂, []⟩)
    (traced.1, traced.2.link) = now ∧ now.1.association = some a ∧
      a.AgreedWith s now.2.pipe.endpoint ∧ ∀ x ∈ traced.2.trace, x.AgreesWith a s c.config := by
  intro now traced
  have hsame : (traced.1, traced.2.link) = now :=
    Shadows.conduct PipeLink.withGroups later c₂ ⟨l₂, []⟩
  have hrests : Rests s c.config (c₁, l₁) := by
    rw [← hbefore]
    exact (Rests.of_open s c id name path groups).conduct before
  have hnext := hrests.withGroups g
  obtain ⟨p, hp, ⟨err, hfailed⟩ | ⟨a', hassociate, hbound⟩⟩ := hnext.bind_cases i
  · cases hfailed.symm.trans hbind
  · cases hbound.symm.trans hbind
    obtain ⟨hagreed, hreceive, hmax⟩ :=
      agreedWith_of_associate hp (hnext.boundService p) hg hassociate
    rw [hrests.config] at hmax
    have hquiet := hnext.boundLink p
    have hstart : Conforms a s c.config ((l₁.withGroups g).pipe.endpoint.bound g p)
        ({ c₁ with callId := c₁.callId + 1, association := some a },
          ⟨boundLink (l₁.withGroups g) p, []⟩) :=
      ⟨rfl, hquiet.receptive, ⟨.awaitingFirst, rfl⟩,
        ⟨[], hquiet.quiet.outbound, List.forall_mem_nil _⟩, List.forall_mem_nil _⟩
    have hrun : Conforms a s c.config ((l₁.withGroups g).pipe.endpoint.bound g p) traced :=
      Preserves.conduct (fun g c l h => h.withGroups g) (fun x hx => .perform
        (Conforms.preserves_call hagreed hmax hreceive) (hlater x hx)) hstart
    obtain ⟨assembly, hendpoint⟩ := hrun.endpoint
    refine ⟨hsame, ?_, ?_, hrun.trace⟩
    · rw [← hsame]
      exact hrun.association
    · rw [← hsame, hendpoint]
      exact hagreed.withAssembly assembly

/-- A call that comes too early, and calls after the bind, one of them to another interface. -/
def sampleOperations : List (GroupAllocator × Operation) × List (GroupAllocator × Operation) :=
  ([(⟨5⟩, .call 2 [1])], [(⟨7⟩, .call 2 [7, 8, 9]), (⟨9⟩, .shareEnum "" 1), (⟨9⟩, .call 0 [])])

/-- The client and the pipe of the service after the calls that come too early. -/
def sampleStart : Client × PipeLink :=
  (.of { maxTransmit := 25, maxReceive := 0 },
    (PipeLink.of "echo" (.of 1 "echo" (.ofService sampleService)) .new).withGroups ⟨5⟩)

theorem agreement_after_sampleOperations :
    ∃ a c₂ l₂, bind PipeLink.transport sampleService.interface
        (sampleStart.1, sampleStart.2.withGroups ⟨6⟩) = .ok a (c₂, l₂) ∧
      a.AgreedWith sampleService (conduct PipeLink.transport PipeLink.withGroups
        sampleOperations.2 (c₂, l₂)).2.pipe.endpoint := by
  obtain ⟨a, c₂, l₂, hbind, -⟩ := bind_bound (s := sampleService) (c := sampleStart.1)
    (l := sampleStart.2.withGroups ⟨6⟩) rfl (Nat.le_refl _) ⟨rfl, rfl, rfl⟩ rfl rfl (by decide)
    (by decide) (by decide)
  obtain ⟨-, -, hagreed, -⟩ := agreement_after_bind sampleService 1 "echo" "echo" .new
    (.of { maxTransmit := 25, maxReceive := 0 }) sampleOperations.1 sampleOperations.2
    sampleService.interface (g := ⟨6⟩) (by decide) rfl hbind (by decide)
  exact ⟨a, c₂, l₂, hbind, hagreed⟩

end Client

end RemoteCall
