import RemoteCall.Proofs.Pdu.RoundTrip

/-! What is known of any unit that was decoded: its header is the one that `Header.parse` reads, and
the kind in it is a kind of that unit. -/

namespace RemoteCall

open Body

/-- A header that was asked for is the one that is there. -/
theorem Header.parse_of_expect {kinds : List PacketKind} {data : List UInt8} {h : Header}
    (hexpect : Header.expect kinds data = .ok h) : Header.parse data = .ok h := by
  obtain ⟨h', hparse, hcheck⟩ := bind_ok_iff.mp hexpect
  split at hcheck
  · cases hcheck
    exact hparse
  · cases hcheck

/-- Of a reader that keeps the header it is given. -/
theorem parse_of_decode {α : Type} (header : α → Header) {kinds : List PacketKind}
    {data : List UInt8} {p : Header → Parse α} (hp : ∀ h, Ensures (p h) fun a => header a = h)
    {a : α} (hdecode : (Header.expect kinds data >>= fun h => Body.run (p h) h data) = .ok a) :
    Header.parse data = .ok (header a) := by
  obtain ⟨h, hexpect, hrun⟩ := bind_ok_iff.mp hdecode
  rw [(hp h).run hrun]
  exact Header.parse_of_expect hexpect

section Kinds

variable {data : List UInt8}

theorem Proposal.parse_of_decode {p : Proposal} (h : Proposal.decode data = .ok p) :
    Header.parse data = .ok p.header := by
  refine RemoteCall.parse_of_decode Proposal.header (fun h => ?_) h
  unfold Proposal.parse
  repeat refine Ensures.bind fun _ => ?_
  exact ensures_pure rfl

/-- The contexts of a proposal are counted in one byte. -/
theorem Proposal.length_contexts_lt {p : Proposal} (h : Proposal.decode data = .ok p) :
    p.contexts.length < 256 := by
  obtain ⟨header, -, hrun⟩ := bind_ok_iff.mp h
  have hparse : Ensures (Proposal.parse header (verifier header data))
      fun p => p.contexts.length < 256 := by
    unfold Proposal.parse
    refine Ensures.bind fun _ => Ensures.bind fun _ => Ensures.bind fun _ => ?_
    refine Ensures.bind fun count => Ensures.bind fun _ => ?_
    refine (ensures_times _ _).bind_of fun contexts hcontexts => ensures_pure ?_
    rw [hcontexts]
    exact count.toNat_lt
  exact hparse.run hrun

theorem Acknowledgement.parse_of_decode {a : Acknowledgement}
    (h : Acknowledgement.decode data = .ok a) : Header.parse data = .ok a.header := by
  refine RemoteCall.parse_of_decode Acknowledgement.header (fun h => ?_) h
  unfold Acknowledgement.parse
  repeat refine Ensures.bind fun _ => ?_
  split
  · intro c a c' ha
    cases ha
  · repeat refine Ensures.bind fun _ => ?_
    exact ensures_pure rfl

theorem Refusal.parse_of_decode {r : Refusal} (h : Refusal.decode data = .ok r) :
    Header.parse data = .ok r.header := by
  refine RemoteCall.parse_of_decode Refusal.header (fun h => ?_) h
  unfold Refusal.parse
  refine Ensures.bind fun _ => Ensures.bind fun _ => ?_
  split <;>
  · repeat refine Ensures.bind fun _ => ?_
    exact ensures_pure rfl

theorem Request.parse_of_decode {r : Request} (h : Request.decode data = .ok r) :
    Header.parse data = .ok r.header := by
  refine RemoteCall.parse_of_decode Request.header (fun h => ?_) h
  unfold Request.parse
  repeat refine Ensures.bind fun _ => ?_
  dsimp only
  split <;>
  · repeat refine Ensures.bind fun _ => ?_
    exact ensures_pure rfl

theorem Response.parse_of_decode {r : Response} (h : Response.decode data = .ok r) :
    Header.parse data = .ok r.header := by
  refine RemoteCall.parse_of_decode Response.header (fun h => ?_) h
  unfold Response.parse
  repeat refine Ensures.bind fun _ => ?_
  exact ensures_pure rfl

theorem Fault.parse_of_decode {f : Fault} (h : Fault.decode data = .ok f) :
    Header.parse data = .ok f.header := by
  refine RemoteCall.parse_of_decode Fault.header (fun h => ?_) h
  unfold Fault.parse
  repeat refine Ensures.bind fun _ => ?_
  exact ensures_pure rfl

/-- Of a body that is read once the header is known. -/
theorem Pdu.exists_of_parse {α : Type} {header : α → Header} {h : Header}
    (hparse : Header.parse data = .ok h) {x : Except Error α} {mk : α → Pdu} {u : Pdu}
    (hx : ∀ {a : α}, x = .ok a → Header.parse data = .ok (header a))
    (hu : (x >>= fun a => pure (mk a)) = .ok u) :
    ∃ a : α, u = mk a ∧ Header.parse data = .ok (header a) ∧ (header a).kind = h.kind := by
  obtain ⟨a, ha, hmk⟩ := bind_ok_iff.mp hu
  have hsame := hx ha
  rw [hparse] at hsame
  cases hmk
  cases hsame
  exact ⟨a, rfl, hparse, rfl⟩

/-- The header of a decoded unit was read from the same bytes. -/
theorem Pdu.parse_of_decode {u : Pdu} (hdecode : Pdu.decode data = .ok u) :
    Header.parse data = .ok u.header ∧ u.header.kind ∈ u.kinds := by
  obtain ⟨h, hparse, hbody⟩ := bind_ok_iff.mp hdecode
  cases hk : h.kind <;> simp only [hk] at hbody
  case request =>
    obtain ⟨a, rfl, ha, hkind⟩ := exists_of_parse hparse Request.parse_of_decode hbody
    exact ⟨ha, List.mem_singleton.mpr (hkind.trans hk)⟩
  case response =>
    obtain ⟨a, rfl, ha, hkind⟩ := exists_of_parse hparse Response.parse_of_decode hbody
    exact ⟨ha, List.mem_singleton.mpr (hkind.trans hk)⟩
  case fault =>
    obtain ⟨a, rfl, ha, hkind⟩ := exists_of_parse hparse Fault.parse_of_decode hbody
    exact ⟨ha, List.mem_singleton.mpr (hkind.trans hk)⟩
  case bind =>
    obtain ⟨a, rfl, ha, hkind⟩ := exists_of_parse hparse Proposal.parse_of_decode hbody
    exact ⟨ha, List.mem_singleton.mpr (hkind.trans hk)⟩
  case bindAck =>
    obtain ⟨a, rfl, ha, hkind⟩ := exists_of_parse hparse Acknowledgement.parse_of_decode hbody
    exact ⟨ha, List.mem_singleton.mpr (hkind.trans hk)⟩
  case bindNak =>
    obtain ⟨a, rfl, ha, hkind⟩ := exists_of_parse hparse Refusal.parse_of_decode hbody
    exact ⟨ha, List.mem_singleton.mpr (hkind.trans hk)⟩
  case alterContext =>
    obtain ⟨a, rfl, ha, hkind⟩ := exists_of_parse hparse Proposal.parse_of_decode hbody
    exact ⟨ha, List.mem_singleton.mpr (hkind.trans hk)⟩
  case alterContextResponse =>
    obtain ⟨a, rfl, ha, hkind⟩ := exists_of_parse hparse Acknowledgement.parse_of_decode hbody
    exact ⟨ha, List.mem_singleton.mpr (hkind.trans hk)⟩
  all_goals
    cases hbody
    refine ⟨hparse, ?_⟩
    simp only [header, hk, kinds, List.mem_cons, reduceCtorEq, true_or, or_true, false_or]

theorem Pdu.eq_bind_of_kind {u : Pdu} (hmem : u.header.kind ∈ u.kinds)
    (hkind : u.header.kind = .bind) : ∃ p, u = .bind p := by
  rw [hkind] at hmem
  cases u with
  | bind p => exact ⟨p, rfl⟩
  | _ => simp only [kinds, List.mem_cons, List.not_mem_nil, reduceCtorEq, or_self] at hmem

/-- Binds and alter_contexts are read as proposals. -/
theorem Pdu.proposal_of_decode {u : Pdu} {p : Proposal} (hdecode : Pdu.decode data = .ok u)
    (hu : u = .bind p ∨ u = .alterContext p) : Proposal.decode data = .ok p := by
  obtain ⟨h, -, hbody⟩ := bind_ok_iff.mp hdecode
  cases hk : h.kind <;> simp only [hk] at hbody
  case bind | alterContext =>
    obtain ⟨p', hp', hmk⟩ := bind_ok_iff.mp hbody
    cases hmk
    rcases hu with hu | hu <;> cases hu
    exact hp'
  case auth3 | shutdown | cancelRequest | orphaned =>
    cases hbody
    rcases hu with hu | hu <;> cases hu
  all_goals
    obtain ⟨a, -, hmk⟩ := bind_ok_iff.mp hbody
    cases hmk
    rcases hu with hu | hu <;> cases hu

theorem Proposal.kind_of_decode {p : Proposal} (h : Proposal.decode data = .ok p) :
    p.header.kind = .bind ∨ p.header.kind = .alterContext := by
  obtain ⟨header, hexpect, -⟩ := bind_ok_iff.mp h
  have hheader : p.header = header :=
    Except.ok.inj ((Proposal.parse_of_decode h).symm.trans (Header.parse_of_expect hexpect))
  obtain ⟨header', -, hkind⟩ := bind_ok_iff.mp hexpect
  split at hkind
  · rename_i hcontains
    cases hkind
    simpa [hheader] using hcontains
  · cases hkind

theorem Pdu.decode_of_bind {p : Proposal} (h : Proposal.decode data = .ok p)
    (hkind : p.header.kind = .bind) : Pdu.decode data = .ok (.bind p) := by
  unfold Pdu.decode
  rw [Proposal.parse_of_decode h, ok_bind]
  simp only [hkind, h, ok_bind]
  rfl

end Kinds

end RemoteCall
