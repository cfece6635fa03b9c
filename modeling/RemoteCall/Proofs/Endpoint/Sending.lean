import RemoteCall.Proofs.Endpoint.Answers

/-! The units that an endpoint sends, whatever state it is in (`Endpoint.sends_of_process`): what it
sends in reply, or the responses and the faults of a call. All of them are whole units. -/

namespace RemoteCall

theorem Pdu.written_of_encode {u : Pdu} {b : List UInt8} (hkind : u.header.kind ∈ u.kinds)
    (h : u.encode = .ok b) : u.Written b := by
  obtain ⟨hcount, hframed⟩ := Pdu.encode_ok_iff.mp h
  exact ⟨hkind, hcount, hframed⟩

namespace Action

/-- The action sends the unit, as these bytes. -/
inductive Sends (maxTransmit : UInt16) : Action → Pdu → List UInt8 → Prop
  | reply {u : Pdu} {b : List UInt8} (hb : u.Written b) : Sends maxTransmit (.reply u) u b
  | fault (call : Call) {f : Fault} {b : List UInt8} (hb : (Pdu.fault f).Written b)
      (hlength : b.length = 32) : Sends maxTransmit (.execute call) (.fault f) b
  | response (call : Call) {r : Response} {b : List UInt8} (hb : (Pdu.response r).Written b)
      (hlength : b.length ≤ maxTransmit.toNat) :
    Sends maxTransmit (.execute call) (.response r) b

variable {action : Action} {maxTransmit : UInt16} {u : Pdu} {b : List UInt8}
  {bs : List (List UInt8)}

theorem Sends.written (h : action.Sends maxTransmit u b) : u.Written b := by
  cases h with
  | reply hb => exact hb
  | fault _ hb _ => exact hb
  | response _ hb _ => exact hb

/-- The responses of a call are whole units, and not too long. -/
theorem sends_responses (call : Call) {payload : List UInt8} (h : (do
      encodeAll Response.encode (← Response.fragments call.callId call.contextId payload
        maxTransmit)) = .ok bs) :
    ∀ b ∈ bs, ∃ u, (execute call).Sends maxTransmit u b := by
  obtain ⟨rs, hrs, hencode⟩ := bind_ok_iff.mp h
  obtain ⟨room, hfits, -⟩ := bind_ok_iff.mp hrs
  have hroom : Header.size + Response.fixedLength < maxTransmit.toNat := lt_of_roomFor hfits
  obtain ⟨rs', bs', hrs', hencode', hwritten, -⟩ :=
    Response.replies_fragments call.callId call.contextId payload hroom
  cases hrs.symm.trans hrs'
  cases hencode.symm.trans hencode'
  obtain ⟨rs', hrs', hdelivers, -⟩ :=
    Response.delivers_fragments call.callId call.contextId payload hroom
  cases hrs.symm.trans hrs'
  intro b hb
  obtain ⟨i, hi, rfl⟩ := List.mem_iff_getElem.mp hb
  have hi' : i < (rs.map Pdu.response).length := hwritten.length_eq ▸ hi
  have hunit := hwritten.get hi' hi
  have hlength := hdelivers.length_le (List.getElem_mem hi') hunit.encode
  rw [List.get_eq_getElem, List.getElem_map] at hunit
  exact ⟨_, .response call hunit hlength⟩

/-- Whatever is performed sends whole units. -/
theorem sends_of_perform (hkind : ∀ u, action = .reply u → u.header.kind ∈ u.kinds)
    (h : action.perform maxTransmit = .ok bs) : ∀ b ∈ bs, ∃ u, action.Sends maxTransmit u b := by
  cases action with
  | silent =>
    cases h
    exact List.forall_mem_nil _
  | reply u =>
    obtain ⟨b, hencode, hb⟩ := bind_ok_iff.mp h
    cases hb
    exact List.forall_mem_singleton.mpr
      ⟨u, .reply (Pdu.written_of_encode (hkind u rfl) hencode)⟩
  | execute call =>
    simp only [perform] at h
    split at h
    · exact sends_responses call h
    · rename_i err _
      obtain ⟨b, hencode, hb⟩ := bind_ok_iff.mp h
      cases hb
      obtain ⟨⟨b', hb', hlength⟩, -⟩ := failure_spec call err
      obtain rfl : b' = b := Except.ok.inj (hb'.encode.symm.trans hencode)
      exact List.forall_mem_singleton.mpr ⟨_, .fault call hb' hlength⟩

end Action

theorem Pdu.Refuses.length_le {u : Pdu} {b : List UInt8} (h : u.Refuses) (hb : u.Written b) :
    b.length ≤ 32 := by
  have hshort : ∃ b', u.Written b' ∧ b'.length ≤ 32 := by
    cases h with
    | fault => exact (Fault.exists_written rfl rfl rfl).imp fun _ hb => ⟨hb.1, Nat.le_of_eq hb.2⟩
    | bindNak callId reason =>
      have hbody : ((Pdu.bindNak (.of callId reason)).body Representation.standard.order).length
          ≤ 16 := by simp [Pdu.body, Refusal.of, Refusal.body]
      have hlength : Header.size + 16 = 32 := rfl
      obtain ⟨b', hb', hlength'⟩ := Pdu.exists_written_of_length (u := .bindNak (.of callId reason))
        (List.mem_singleton_self _) (by decide : 1 < 256) rfl rfl rfl (by omega)
      exact ⟨b', hb', by omega⟩
  obtain ⟨b', hb', hle⟩ := hshort
  rw [hb.unique hb']
  exact hle

theorem Pdu.Refuses.kind {u : Pdu} (h : u.Refuses) : u.header.kind ∈ u.kinds := by
  cases h <;> exact List.mem_singleton_self _

namespace Endpoint

variable {e e' : Endpoint} {g g' : GroupAllocator} {data b : List UInt8} {action : Action}
  {bs : List (List UInt8)}

/-- What an endpoint replies is of the kind that its header tells. -/
theorem Verdict.kind (h : Verdict e g data action e' g') :
    ∀ u, action = .reply u → u.header.kind ∈ u.kinds := by
  intro u hu
  cases h with
  | refused hunit =>
    cases hu
    exact hunit.kind
  | bound =>
    cases hu
    exact List.mem_singleton_self _
  | altered =>
    cases hu
    exact List.mem_singleton_self _
  | request => exact (judgeRequest_refuses hu).kind
  | other => cases hu

/-- Every unit of an answer is one that the verdict has it send. -/
theorem sends_of_process (h : (e.process g data).answers = .ok bs) :
    ∃ action, Verdict e g data action (e.process g data).endpoint (e.process g data).groups ∧
      ∀ b ∈ bs, ∃ u, action.Sends (e.process g data).endpoint.maxTransmit u b := by
  cases hjudge : e.judge g data with
  | error err =>
    rw [process_of_judge_error hjudge] at h
    cases h
  | ok judged =>
    obtain ⟨action, e', g'⟩ := judged
    have hverdict := verdict_of_judge hjudge
    rw [process_of_judge hjudge] at h ⊢
    exact ⟨action, hverdict, Action.sends_of_perform hverdict.kind h⟩

theorem written_of_process (h : (e.process g data).answers = .ok bs) :
    ∀ b ∈ bs, ∃ u : Pdu, u.Written b := by
  obtain ⟨action, -, hsends⟩ := sends_of_process h
  intro b hb
  obtain ⟨u, hu⟩ := hsends b hb
  exact ⟨u, hu.written⟩

/-- A request is passed on to the assembly, and what answers it is no longer than what was agreed
on. -/
theorem process_request_kept {r : Request} (hb : (Pdu.request r).Written data)
    (hmajor : r.header.major = Header.version) (hroom : 32 ≤ e.maxTransmit.toNat) :
    (∃ assembly, (e.process g data).endpoint = { e with assembly }) ∧
      ∀ bs, (e.process g data).answers = .ok bs →
        ∀ b ∈ bs, (∃ u : Pdu, u.Written b) ∧ b.length ≤ e.maxTransmit.toNat := by
  rw [process_request hb hmajor, judgeRequest_endpoint]
  refine ⟨⟨_, rfl⟩, fun bs hbs b hmem => ?_⟩
  have hkind : ∀ u, (e.judgeRequest r).1 = .reply u → u.header.kind ∈ u.kinds :=
    fun u hu => (judgeRequest_refuses hu).kind
  obtain ⟨u, hsends⟩ := Action.sends_of_perform hkind hbs b hmem
  refine ⟨⟨u, hsends.written⟩, ?_⟩
  generalize haction : (e.judgeRequest r).1 = action at hsends
  cases hsends with
  | reply hu => exact Nat.le_trans ((judgeRequest_refuses haction).length_le hu) hroom
  | fault _ _ hlength => exact Nat.le_trans (Nat.le_of_eq hlength) hroom
  | response _ _ hlength => exact hlength

end Endpoint

end RemoteCall
