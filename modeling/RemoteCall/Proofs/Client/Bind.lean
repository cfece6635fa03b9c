import RemoteCall.Proofs.Client.Talk
import RemoteCall.Proofs.Endpoint.Contexts

/-! A client binds to the interface of the service behind its pipe. -/

namespace RemoteCall

section Negotiation

theorem le_toNat_min {n : Nat} {x y : UInt16} (hx : n ≤ x.toNat) (hy : n ≤ y.toNat) :
    n ≤ (min x y).toNat := by
  change n ≤ (if x ≤ y then x else y).toNat
  split
  · exact hx
  · exact hy

theorem toNat_min_le (x y : UInt16) : (min x y).toNat ≤ x.toNat := by
  change (if x ≤ y then x else y).toNat ≤ x.toNat
  split
  · exact Nat.le_refl _
  · rename_i h
    rw [UInt16.le_iff_toNat_le] at h
    omega

variable {s : Service}

/-- The context with NDR is accepted by every service that speaks it. -/
theorem ContextAnswer.negotiate_ndr2 (hndr : SyntaxId.ndr2 ∈ s.transferSyntaxes) (id : UInt16) :
    negotiate (some s) ⟨id, s.interface.id, [.ndr2]⟩ = accept .ndr2 := by
  have hfind : [SyntaxId.ndr2].find? s.transferSyntaxes.contains = some .ndr2 := by
    rw [List.find?_cons_of_pos]
    exact List.contains_iff_mem.mpr hndr
  unfold negotiate
  dsimp only
  rw [bne_self_eq_false, if_neg Bool.false_ne_true, hfind]

end Negotiation

namespace Client

variable {s : Service} {c : Client} {l : PipeLink}

theorem proposal_written (config : ClientConfig) (callId : UInt32) (i : Interface) :
    ∃ b, (Pdu.bind (proposal config callId i)).Written b := by
  have hone : (1 : Nat) < 256 := by decide
  have htwo : (2 : Nat) < 256 := by decide
  refine Pdu.exists_written (List.mem_singleton_self _) ⟨htwo, ?_⟩ rfl ?_
  · intro context hcontext
    rcases List.mem_cons.mp hcontext with rfl | hcontext
    · exact hone
    · cases List.mem_singleton.mp hcontext
      exact hone
  · simp [Pdu.body, Pdu.verifier, proposal, Proposal.bind, Proposal.body, Context.bytes,
      Header.size]

theorem proposal_ids (config : ClientConfig) (callId : UInt32) (i : Interface) :
    ((proposal config callId i).contexts.map (·.id)).Nodup :=
  (by decide : ([0, 1] : List UInt16).Nodup)

/-- The first context is the one that the client goes on to use. -/
theorem associate_of_accepted {i : Interface} {p : Proposal} {ack : Acknowledgement}
    {context : Context} {answer : ContextAnswer}
    (hfirst : (p.contexts.zip ack.answers).find? (·.2.isAccepted) = some (context, answer)) :
    associate i p ack = .ok ⟨i, context.id, answer.transferSyntax, ack.group, ack.address,
      min ack.maxReceive p.maxTransmit⟩ := by
  unfold associate
  rw [hfirst]

/-- The association is with the service, on context 0, and sends what the client is set to send. -/
structure Bound (s : Service) (c : Client) (l : PipeLink) : Prop where
  association : ∃ a, c.association = some a ∧ a.contextId = 0 ∧
    Header.size + Request.fixedLength none < a.maxTransmit.toNat
  ready : Ready s 0 l

/-- No unit waits in the pipe, in either direction, and no call is in progress. -/
structure Quiet (l : PipeLink) : Prop where
  inbound : l.pipe.inbound = []
  outbound : l.pipe.outbound = []
  assembly : l.pipe.endpoint.assembly.inProgress = false

theorem Quiet.answered (h : Quiet l) (t : Turn) (ht : t.endpoint.assembly.inProgress = false) :
    Quiet (l.answered t []) :=
  ⟨h.inbound, (List.append_nil _).trans h.outbound, ht⟩

/-- The link once a bind has been taken in, with nothing left of the answer. -/
def boundLink (l : PipeLink) (p : Proposal) : PipeLink :=
  l.answered ⟨.ok [], l.pipe.endpoint.bound l.groups p,
    (Acknowledgement.ofBind l.groups (l.pipe.endpoint.boundService p) p).2⟩ []

section Answers

variable (hconnected : l.isConnected = true) (hsize : 65536 ≤ l.pipe.maxMessageSize)
  (hquiet : Quiet l) {i : Interface} {p : Proposal} (hp : p = proposal c.config (c.callId + 1) i)
include hconnected hsize hquiet hp

/-- The client is told what it is granted, and associates accordingly. -/
theorem bind_of_written {b : List UInt8}
    (hb : (Pdu.bindAck (l.pipe.endpoint.bindAck l.groups p)).Written b) :
    bind PipeLink.transport i (c, l) = (do
      let a ← given (associate i p (l.pipe.endpoint.bindAck l.groups p))
      modify fun (c, l) => ({ c with association := some a }, l)
      return a : Talk PipeLink Association) ({ c with callId := c.callId + 1 }, boundLink l p) := by
  subst hp
  obtain ⟨data, hdata⟩ := proposal_written c.config (c.callId + 1) i
  have hencode : (proposal c.config (c.callId + 1) i).encode = .ok data := hdata.encode
  have hprocess := Endpoint.process_bind_eq (e := l.pipe.endpoint) (g := l.groups) hdata rfl
  rw [Action.perform_reply hb] at hprocess
  have hsend := PipeLink.send_unit hdata hconnected hquiet.inbound hsize
    (congrArg Turn.answers hprocess)
  rw [hprocess] at hsend
  have hout : l.pipe.outbound ++ [b].flatten = b ++ [] := by
    rw [hquiet.outbound, List.flatten_singleton, List.nil_append, List.append_nil]
  have hreceive : ∀ t : Turn,
      PipeLink.transport.receive (l.answered t [b]) = (.ok b, l.answered t []) := by
    intro t
    have hlink : (l.answered t [b]).withQueue [] = l.answered t [] := by
      simp only [PipeLink.answered, PipeLink.withQueue, Pipe.answered, hquiet.outbound,
        List.flatten_nil, List.append_nil]
    rw [← hlink]
    exact PipeLink.receive_unit (l := l.answered t [b]) hb hconnected hout
  refine (bind_of_encode hencode).trans ?_
  refine (bind_of_ok (onLink_of_ok hsend)).trans ?_
  refine (bind_of_ok (onLink_of_ok (hreceive _))).trans ?_
  exact (bind_of_ok (given_of_ok hb.decode)).trans rfl

/-- If the answer cannot be written, the client gets nothing but the error. -/
theorem bind_of_encode_error {err : Error}
    (herror : (Pdu.bindAck (l.pipe.endpoint.bindAck l.groups p)).encode = .error err) :
    bind PipeLink.transport i (c, l) =
      .error err ({ c with callId := c.callId + 1 }, boundLink l p) := by
  subst hp
  obtain ⟨data, hdata⟩ := proposal_written c.config (c.callId + 1) i
  have hencode : (proposal c.config (c.callId + 1) i).encode = .ok data := hdata.encode
  have hprocess := Endpoint.process_bind_eq (e := l.pipe.endpoint) (g := l.groups) hdata rfl
  simp only [Action.perform, herror] at hprocess
  have hsend := PipeLink.send_unit_error hdata hconnected hquiet.inbound hsize
    (congrArg Turn.answers hprocess)
  rw [hprocess] at hsend
  refine (bind_of_encode hencode).trans ?_
  exact bind_of_error (onLink_of_error hsend)

end Answers

/-- The service that the endpoint finds is the one that the client binds to. -/
theorem bind_of_boundService (hconnected : l.isConnected = true)
    (hsize : 65536 ≤ l.pipe.maxMessageSize) (hquiet : Quiet l)
    (hservice : l.pipe.endpoint.boundService (proposal c.config (c.callId + 1) s.interface) = some s)
    (hndr : SyntaxId.ndr2 ∈ s.transferSyntaxes) (hname : s.pipeName.utf8ByteSize ≤ 59000)
    (hroom : 25 ≤ c.config.maxTransmit.toNat) :
    ∃ a c' l', bind PipeLink.transport s.interface (c, l) = .ok a (c', l') ∧
      c'.association = some a ∧ a.interface = s.interface ∧ Bound s c' l' ∧ Quiet l' := by
  let e := l.pipe.endpoint
  obtain ⟨p, hp⟩ : ∃ p, p = proposal c.config (c.callId + 1) s.interface := ⟨_, rfl⟩
  have hbound : e.boundService p = some s := hp ▸ hservice
  obtain ⟨b, hb⟩ : ∃ b, (Pdu.bindAck (e.bindAck l.groups p)).Written b := by
    have hcount : p.contexts.length = 2 := by rw [hp]; rfl
    refine Endpoint.bindAck_written (by omega) fun s' hs' => ?_
    cases hbound.symm.trans hs'
    omega
  have hbind := bind_of_written hconnected hsize hquiet hp hb
  -- The first answer accepts the first context, and the other one changes nothing about that.
  have hanswers : (e.bindAck l.groups p).answers = [.accept .ndr2, .negotiate (some s)
      ⟨1, s.interface.id, [.featureNegotiation]⟩] := by
    rw [← ContextAnswer.negotiate_ndr2 hndr 0, ← hbound, hp]
    rfl
  have hfirst : (p.contexts.zip (e.bindAck l.groups p).answers).find? (·.2.isAccepted)
      = some (⟨0, s.interface.id, [.ndr2]⟩, .accept .ndr2) := by
    rw [hanswers, hp]
    exact List.find?_cons_of_pos rfl
  have hassociate := associate_of_accepted (i := s.interface) hfirst
  rw [bind_of_ok (given_of_ok hassociate)] at hbind
  refine ⟨_, _, boundLink l p, hbind, rfl, rfl, ⟨⟨_, rfl, rfl, ?_⟩, hconnected, hquiet.inbound, hsize,
    hbound, ?_, ?_⟩, hquiet.answered _ rfl⟩
  · have hreceive : (e.bindAck l.groups p).maxReceive = max p.maxTransmit minFragment := rfl
    have htransmit : p.maxTransmit = c.config.maxTransmit := by rw [hp]; rfl
    rw [hreceive, htransmit]
    exact le_toNat_min (Nat.le_trans hroom (le_toNat_max _ _).1) hroom
  · obtain ⟨hcontext, -⟩ := Endpoint.acceptedContext_bound (e := e) (g := l.groups)
      (by rw [hp]; exact proposal_ids c.config _ _) (List.mem_of_find?_eq_some hfirst) rfl
    exact Option.isSome_iff_exists.mpr ⟨_, hcontext⟩
  · exact Nat.lt_of_lt_of_le (by decide) (le_toNat_max p.maxReceive minFragment).2

theorem bind_bound (hconnected : l.isConnected = true) (hsize : 65536 ≤ l.pipe.maxMessageSize)
    (hquiet : Quiet l) (hsource : l.pipe.endpoint.source = .fixed)
    (hservice : l.pipe.endpoint.service = some s) (hndr : SyntaxId.ndr2 ∈ s.transferSyntaxes)
    (hname : s.pipeName.utf8ByteSize ≤ 59000) (hroom : 25 ≤ c.config.maxTransmit.toNat) :
    ∃ a c' l', bind PipeLink.transport s.interface (c, l) = .ok a (c', l') ∧ Bound s c' l' ∧
      Quiet l' := by
  have hbound : ∀ p, l.pipe.endpoint.boundService p = some s := by
    intro p
    unfold Endpoint.boundService
    rw [hsource]
    exact hservice
  obtain ⟨a, c', l', hbind, -, -, hbound', hquiet'⟩ :=
    bind_of_boundService hconnected hsize hquiet (hbound _) hndr hname hroom
  exact ⟨a, c', l', hbind, hbound', hquiet'⟩

end Client

end RemoteCall
