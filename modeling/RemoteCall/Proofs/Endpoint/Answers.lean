import RemoteCall.Proofs.Endpoint.Binding

/-! Only what cannot be decoded is an error (`Endpoint.process_error_iff`). Whatever else comes in,
in any state that an endpoint can be in, all units of the answer can be written: an acknowledgement
has at most 255 answers and an address that leaves room for them, and responses are cut to a size
that is never below the floor. -/

namespace RemoteCall

/-- The address of the service leaves room for the answers in every acknowledgement. -/
def Service.Announceable (s : Service) : Prop := s.pipeName.utf8ByteSize ≤ 59000

theorem Registry.mem_of_forProposal? {r : Registry} {p : Proposal} {s : Service}
    (h : r.forProposal? p = some s) : s ∈ r.services := by
  obtain ⟨c, -, hget⟩ := List.exists_of_findSome?_eq_some h
  exact List.mem_of_find?_eq_some hget

/-! ## Units of an answer -/

theorem Pdu.Refuses.written {u : Pdu} (h : u.Refuses) : ∃ b, u.Written b := by
  cases h with
  | fault => exact (Fault.exists_written rfl rfl rfl).imp fun _ hb => hb.1
  | bindNak callId reason =>
    refine Pdu.exists_written (List.mem_singleton_self _) ?_ rfl ?_
    · exact (by decide : 1 < 256)
    · simp [Pdu.body, Pdu.verifier, Refusal.of, Refusal.body, Header.size]

namespace Endpoint

/-! ## States that an endpoint can be in -/

/-- A new endpoint, behind a pipe or with services to select from. -/
inductive New : Endpoint → Prop
  | ofService (s : Service) : New (ofService s)
  | ofRegistry (r : Registry) : New (ofRegistry r)

/-- A new endpoint whose services can all be announced. -/
inductive Fresh : Endpoint → Prop
  | ofService {s : Service} (h : s.Announceable) : Fresh (ofService s)
  | ofRegistry {r : Registry} (h : ∀ s ∈ r.services, s.Announceable) : Fresh (ofRegistry r)

/-- What holds of a new endpoint, and from then on: there is room in a fragment, and who talks to no
service has accepted no context. -/
structure Settled (e : Endpoint) : Prop where
  room : minFragment.toNat ≤ e.maxTransmit.toNat
  contexts : e.service = none → e.contexts = []

/-- What holds if all services can be announced. -/
structure Sound (e : Endpoint) : Prop extends e.Settled where
  service : ∀ s, e.service = some s → s.Announceable
  registered : ∀ r, e.source = .registry r → ∀ s ∈ r.services, s.Announceable

variable {e e' : Endpoint} {g g' : GroupAllocator} {data : List UInt8} {action : Action}
  {p : Proposal}

theorem Fresh.new (h : e.Fresh) : e.New := by
  cases h with
  | ofService _ => exact .ofService _
  | ofRegistry _ => exact .ofRegistry _

theorem New.settled (h : e.New) : e.Settled := by
  have hroom : minFragment.toNat ≤ defaultMaxFragment.toNat := by decide
  cases h with
  | ofService s => exact ⟨hroom, fun _ => rfl⟩
  | ofRegistry r => exact ⟨hroom, fun _ => rfl⟩

theorem Fresh.sound (h : e.Fresh) : e.Sound := by
  refine ⟨h.new.settled, ?_, ?_⟩
  · cases h with
    | ofService h =>
      rintro _ ⟨⟩
      exact h
    | ofRegistry h => exact nofun
  · cases h with
    | ofService h => exact nofun
    | ofRegistry h =>
      rintro _ ⟨⟩
      exact h

/-- Without a service, no context is accepted. -/
theorem recordContexts_none (contexts : List (UInt16 × SyntaxId)) (cs : List Context) :
    recordContexts contexts cs (cs.map (ContextAnswer.negotiate none)) = contexts := by
  induction cs with
  | nil => rfl
  | cons c cs ih => exact ih

theorem Settled.kept : Kept Settled where
  bound _ g p := by
    refine ⟨(le_toNat_max p.maxReceive minFragment).2, fun hnone => ?_⟩
    have hanswers : (bindAck _ g p).answers = p.contexts.map (ContextAnswer.negotiate none) :=
      congrArg (fun service => p.contexts.map (ContextAnswer.negotiate service)) hnone
    exact (congrArg (recordContexts [] p.contexts) hanswers).trans (recordContexts_none _ _)
  altered {e} h p group := by
    refine ⟨h.room, fun hnone => ?_⟩
    have hbefore : e.service = none := by
      cases hservice : e.service with
      | none => rfl
      | some s => exact absurd ((alteredService_of_service hservice p).symm.trans hnone) nofun
    have hanswers : (e.alterAck p group).answers =
        p.contexts.map (ContextAnswer.negotiate none) :=
      congrArg (fun service => p.contexts.map (ContextAnswer.negotiate service)) hnone
    have hcontexts := (congrArg (recordContexts e.contexts p.contexts) hanswers).trans
      (recordContexts_none _ _)
    exact hcontexts.trans (h.contexts hbefore)
  assembly h _ := ⟨h.room, h.contexts⟩

namespace Sound

theorem boundService (h : e.Sound) {s : Service} (hs : e.boundService p = some s) :
    s.Announceable := by
  unfold Endpoint.boundService at hs
  cases hsource : e.source with
  | fixed =>
    rw [hsource] at hs
    exact h.service s hs
  | registry r =>
    rw [hsource] at hs
    exact h.registered r hsource s (Registry.mem_of_forProposal? hs)

theorem alteredService (h : e.Sound) {s : Service} (hs : e.alteredService p = some s) :
    s.Announceable := by
  unfold Endpoint.alteredService at hs
  split at hs
  · rename_i r _ hsource
    exact h.registered r hsource s (Registry.mem_of_forProposal? hs)
  · exact h.service s hs

theorem kept : Kept Sound where
  bound h g p := ⟨Settled.kept.bound h.toSettled g p, fun _ hs => h.boundService hs, h.registered⟩
  altered h p group :=
    ⟨Settled.kept.altered h.toSettled p group, fun _ hs => h.alteredService hs, h.registered⟩
  assembly h assembly :=
    ⟨Settled.kept.assembly h.toSettled assembly, h.service, h.registered⟩

end Sound

theorem Reachable.settled (h : Reachable New e) : e.Settled :=
  Settled.kept.reachable (fun _ hnew => hnew.settled) h

theorem Reachable.sound (h : Reachable Fresh e) : e.Sound :=
  Sound.kept.reachable (fun _ hfresh => hfresh.sound) h

/-! ## Answers -/

theorem Sound.bindAck_written (h : e.Sound) (hdecode : Pdu.decode data = .ok (.bind p)) :
    ∃ b, (Pdu.bindAck (e.bindAck g p)).Written b := by
  have hcount := Proposal.length_contexts_lt (Pdu.proposal_of_decode hdecode (.inl rfl))
  refine Endpoint.bindAck_written hcount ?_
  intro s hs
  have hname : s.pipeName.utf8ByteSize ≤ 59000 := h.boundService hs
  omega

theorem alterAck_written (group : UInt32) (hdecode : Pdu.decode data = .ok (.alterContext p)) :
    ∃ b, (Pdu.alterContextResponse (e.alterAck p group)).Written b := by
  have hcount := Proposal.length_contexts_lt (Pdu.proposal_of_decode hdecode (.inr rfl))
  have hanswers : (e.alterAck p group).answers.length = p.contexts.length := List.length_map _
  have haddress : (e.alterAck p group).address.utf8ByteSize = 0 := rfl
  refine Acknowledgement.exists_written (.inr rfl) (List.mem_singleton.mpr rfl) rfl rfl ?_ ?_
  · rw [hanswers]
    exact hcount
  · rw [hanswers]
    omega

/-- What is judged is answered, by units that are written. -/
theorem Verdict.performs (hverdict : Verdict e g data action e' g') (h : e.Sound) :
    ∃ us bs, action.perform e'.maxTransmit = .ok bs ∧ List.Forall₂ Pdu.Written us bs := by
  have hreply : ∀ {u : Pdu}, (∃ b, u.Written b) → ∃ us bs,
      (Action.reply u).perform e'.maxTransmit = .ok bs ∧ List.Forall₂ Pdu.Written us bs := by
    rintro u ⟨b, hb⟩
    exact ⟨[u], [b], Action.perform_reply hb _, .cons hb .nil⟩
  cases hverdict with
  | refused hunit => exact hreply hunit.written
  | bound hdecode => exact hreply (h.bindAck_written hdecode)
  | altered hdecode => exact hreply (alterAck_written _ hdecode)
  | @request r _ _ =>
    rcases judgeRequest_cases e r with hsilent | ⟨u, hu, hrefuses⟩ | ⟨call, hcall, -⟩
    · rw [hsilent]
      exact ⟨[], [], rfl, .nil⟩
    · rw [hu]
      exact hreply hrefuses.written
    · rw [hcall]
      have hroom : Header.size + Response.fixedLength < e.maxTransmit.toNat :=
        Nat.lt_of_lt_of_le (by decide) h.room
      obtain ⟨us, bs, hperform, hwritten, -⟩ := Action.perform_execute call hroom
      exact ⟨us, bs, hperform, hwritten⟩
  | other => exact ⟨[], [], rfl, .nil⟩

/-! ## Errors -/

/-- The header cannot be read, or the body of a unit that is looked into. Of the units of another
major version this is only the bind. -/
inductive Undecodable (data : List UInt8) : Prop
  | header {err : Error} (hparse : Header.parse data = .error err)
  | body {h : Header} {err : Error} (hparse : Header.parse data = .ok h)
      (hspoken : h.major = Header.version ∨ h.kind = .bind) (hdecode : Pdu.decode data = .error err)

theorem judge_error_iff : (∃ err, e.judge g data = .error err) ↔ Undecodable data := by
  unfold judge
  cases hparse : Header.parse data with
  | error err => exact ⟨fun _ => .header hparse, fun _ => ⟨err, rfl⟩⟩
  | ok h =>
    rw [ok_bind]
    constructor
    · rintro ⟨err, herr⟩
      split at herr
      · cases herr
      · rename_i hproceeds
        cases hdecode : Pdu.decode data with
        | ok u =>
          rw [hdecode] at herr
          cases herr
        | error err' =>
          refine .body hparse ?_ hdecode
          by_cases hmajor : h.major = Header.version
          · exact .inl hmajor
          · rw [bne_iff_ne.mpr hmajor, Bool.true_and, bne_iff_ne, not_not] at hproceeds
            exact .inr hproceeds
    · rintro (⟨hparse'⟩ | ⟨hparse', hspoken, hdecode⟩)
      · rw [hparse] at hparse'
        cases hparse'
      · rw [hparse, Except.ok.injEq] at hparse'
        subst hparse'
        have hproceeds : ¬ (h.major != Header.version && h.kind != .bind) = true := by
          rw [Bool.and_eq_true, bne_iff_ne, bne_iff_ne]
          rintro ⟨hmajor, hkind⟩
          exact hspoken.elim hmajor hkind
        rw [if_neg hproceeds, hdecode]
        exact ⟨_, rfl⟩

/-- **Only what cannot be decoded is an error, and an error changes nothing.** In every state that
an endpoint can be in, whatever its handlers do, any other unit is answered. -/
theorem process_error_iff (h : Reachable Fresh e) (g : GroupAllocator) (data : List UInt8) :
    ((∃ err, (e.process g data).answers = .error err) ↔ Undecodable data) ∧
      (Undecodable data → (e.process g data).endpoint = e ∧ (e.process g data).groups = g) := by
  rw [← judge_error_iff (e := e) (g := g)]
  cases hjudge : e.judge g data with
  | error err =>
    rw [process_of_judge_error hjudge]
    exact ⟨⟨fun _ => ⟨err, rfl⟩, fun _ => ⟨err, rfl⟩⟩, fun _ => ⟨rfl, rfl⟩⟩
  | ok judged =>
    obtain ⟨action, e', g'⟩ := judged
    obtain ⟨us, bs, hperform, -⟩ := (verdict_of_judge hjudge).performs h.sound
    rw [process_of_judge hjudge, hperform]
    exact ⟨⟨nofun, nofun⟩, nofun⟩

/-- A service without operations. -/
def bareService : Service := ⟨⟨⟨1, 2, 3, 4⟩, 1, 0, "none"⟩, "none", [.ndr2], .empty⟩

/-- An endpoint that has taken in the first fragment of a call. -/
def sampleEndpoint : Endpoint :=
  ((ofService bareService).process .new
    [5, 0, 0, 1, 16, 0, 0, 0, 25, 0, 0, 0, 1, 0, 0, 0, 1, 0, 0, 0, 0, 0, 0, 0, 9]).endpoint

/-- A request that ends with its header. -/
def headerOnly : List UInt8 := [5, 0, 0, 3, 16, 0, 0, 0, 16, 0, 0, 0, 1, 0, 0, 0]

/-- It is an error, and the call in progress goes on. -/
theorem process_headerOnly :
    sampleEndpoint.assembly = .accumulating 1 [9] ∧
      (∃ err, (sampleEndpoint.process .new headerOnly).answers = .error err) ∧
      (sampleEndpoint.process .new headerOnly).endpoint = sampleEndpoint ∧
      (sampleEndpoint.process .new headerOnly).groups = .new := by
  have hname : bareService.Announceable := by
    unfold Service.Announceable
    decide
  have hreachable : Reachable Fresh sampleEndpoint :=
    .process (.start (.ofService hname)) _ _
  have hundecodable : Undecodable headerOnly := .body rfl (.inl rfl) rfl
  obtain ⟨herror, hsame⟩ := process_error_iff hreachable .new headerOnly
  exact ⟨rfl, herror.mpr hundecodable, hsame hundecodable⟩

end Endpoint

end RemoteCall
