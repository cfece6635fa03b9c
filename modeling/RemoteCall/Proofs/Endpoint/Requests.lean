import RemoteCall.Proofs.Endpoint.Answers

/-! What becomes of a request, and how its client is told (`Endpoint.decides_iff_told`). The version,
the place of the fragment in its call, the context, the operation and its result decide in this
order, and what is sent tells all of it: nothing while the call goes on, one fault, or responses that
are put together to the payload. -/

namespace RemoteCall

/-! ## Telling the client -/

/-- What becomes of a request. -/
inductive Fate
  /-- The fragment is taken in, and its call goes on. -/
  | pending
  | fault (status : FaultStatus)
  | response (payload : List UInt8)

namespace Pdu

/-- The context that a unit of a call belongs to. -/
def contextId? : Pdu → Option UInt16
  | request r => some r.contextId
  | response r => some r.contextId
  | fault f => some f.contextId
  | _ => none

/-- The unit is an answer to that request. -/
structure Correlates (r : Request) (u : Pdu) : Prop where
  order : u.header.representation.order = .little
  callId : u.header.callId = r.header.callId
  contextId : r.header.major = Header.version → u.contextId? = some r.contextId

theorem SameContent.correlates {r : Request} {u u' : Pdu} (h : u.SameContent u')
    (hu : u.Correlates r) : u'.Correlates r := by
  obtain ⟨f, a, rfl⟩ := h
  obtain ⟨horder, hid, hcontext⟩ := hu
  cases u <;> exact ⟨horder, hid, hcontext⟩

end Pdu

/-- A fault in one unit, with that status. Only a call that failed in its operation was executed. -/
structure Fault.Tells (f : Fault) (status : FaultStatus) : Prop where
  isFirst : f.header.flags.isFirst = true
  isLast : f.header.flags.isLast = true
  notExecuted : f.header.flags.has .didNotExecute = (status != .ndrFault)
  status : f.status = status.code

/-- The units that were read, each from its bytes, tell what became of the request. -/
inductive Fate.Told (maxTransmit : UInt16) : Fate → List (List UInt8) → List Pdu → Prop
  | pending : Told maxTransmit .pending [] []
  | fault {status : FaultStatus} {b : List UInt8} {f : Fault} (hlength : b.length = 32)
      (hf : f.Tells status) : Told maxTransmit (.fault status) [b] [.fault f]
  | response {payload : List UInt8} {bs : List (List UInt8)} {us : List Pdu} (hsome : us ≠ [])
      (hkind : ∀ u ∈ us, ∃ r, u = .response r) (hlength : ∀ b ∈ bs, b.length ≤ maxTransmit.toNat)
      (hpayload : reassemble (us.map Pdu.fragment) = .ok payload) :
    Told maxTransmit (.response payload) bs us

theorem FaultStatus.code_injective {s s' : FaultStatus} (h : s.code = s'.code) : s = s' := by
  cases s <;> cases s' <;> first | rfl | cases h

/-- No two fates are told alike. -/
theorem Fate.Told.unique {maxTransmit : UInt16} {fate fate' : Fate} {bs : List (List UInt8)}
    {us : List Pdu} (h : fate.Told maxTransmit bs us) (h' : fate'.Told maxTransmit bs us) :
    fate = fate' := by
  cases h with
  | pending =>
    cases h' with
    | pending => rfl
    | response hsome => exact absurd rfl hsome
  | @fault status b f _ hf =>
    cases h' with
    | fault _ hf' => rw [FaultStatus.code_injective (hf.status.symm.trans hf'.status)]
    | response _ hkind =>
      obtain ⟨r, hr⟩ := hkind _ (List.mem_singleton_self _)
      cases hr
  | response hsome hkind _ hpayload =>
    cases h' with
    | pending => exact absurd rfl hsome
    | fault =>
      obtain ⟨r, hr⟩ := hkind _ (List.mem_singleton_self _)
      cases hr
    | response _ _ _ hpayload' =>
      rw [hpayload, Except.ok.injEq] at hpayload'
      rw [hpayload']

/-- The answers are units for the client of the request, and tell it that fate. -/
def Fate.Answered (r : Request) (maxTransmit : UInt16) (fate : Fate)
    (answers : Except Error (List (List UInt8))) : Prop :=
  ∃ bs us, answers = .ok bs ∧ bs.mapM Pdu.decode = .ok us ∧ (∀ u ∈ us, u.Correlates r) ∧
    fate.Told maxTransmit bs us

namespace Action

variable {r : Request} {maxTransmit : UInt16}

theorem answered_silent : Fate.pending.Answered r maxTransmit (silent.perform maxTransmit) :=
  ⟨[], [], rfl, rfl, List.forall_mem_nil _, .pending⟩

theorem answered_fault {f : Fault} {status : FaultStatus} (hkind : f.header.kind = .fault)
    (hstandard : f.header.representation = .standard) (hauth : f.auth = [])
    (hid : f.header.callId = r.header.callId)
    (hcontext : r.header.major = Header.version → f.contextId = r.contextId)
    (htells : f.Tells status) :
    (Fate.fault status).Answered r maxTransmit ((reply (.fault f)).perform maxTransmit) := by
  obtain ⟨b, hb, hlength⟩ := Fault.exists_written hkind hstandard hauth
  obtain ⟨u, hdecode, hsame⟩ := hb.decode_same
  have horder : f.header.representation.order = .little := by
    rw [hstandard]
    rfl
  have hu : u.Correlates r :=
    hsame.correlates ⟨horder, hid, fun hmajor => congrArg some (hcontext hmajor)⟩
  obtain ⟨fragmentLength, authLength, rfl⟩ := hsame
  refine ⟨[b], _, perform_reply hb maxTransmit, ?_, List.forall_mem_singleton.mpr hu,
    .fault hlength ⟨htells.isFirst, htells.isLast, htells.notExecuted, htells.status⟩⟩
  rw [List.mapM_cons, hdecode]
  rfl

/-- What a client is told about a call that was never executed. -/
theorem answered_notExecuted {contextId : UInt16} {status : FaultStatus}
    (hcontext : r.header.major = Header.version → contextId = r.contextId)
    (hstatus : status ≠ .ndrFault) : (Fate.fault status).Answered r maxTransmit
      ((reply (.fault (.notExecuted r.header.callId contextId status))).perform maxTransmit) := by
  have hflags : let flags := Flags.complete.union .didNotExecute
      flags.isFirst = true ∧ flags.isLast = true ∧ flags.has .didNotExecute = true := by decide
  obtain ⟨hfirst, hlast, hnot⟩ := hflags
  exact answered_fault rfl rfl rfl rfl hcontext
    ⟨hfirst, hlast, hnot.trans (bne_iff_ne.mpr hstatus).symm, rfl⟩

/-- What a client is told about an operation that failed. -/
theorem answered_failure {call : Call} (err : Error) (hid : call.callId = r.header.callId)
    (hcontext : call.contextId = r.contextId)
    (hdispatch : call.service.dispatch call.opnum call.stub = .error err) :
    (Fate.fault (.ofError err)).Answered r maxTransmit ((execute call).perform maxTransmit) := by
  have hperform : (execute call).perform maxTransmit =
      (reply (.fault (failure call err))).perform maxTransmit := by
    simp only [perform, hdispatch]
    rfl
  have hstatus : FaultStatus.ofError err = .opRangeError ∨ FaultStatus.ofError err = .ndrFault := by
    unfold FaultStatus.ofError
    split
    · exact .inl rfl
    · exact .inr rfl
  rw [hperform, failure]
  rcases hstatus with hstatus | hstatus
  · rw [hstatus, hid]
    exact answered_notExecuted (fun _ => hcontext) (by decide)
  · have hflags : Flags.complete.isFirst = true ∧ Flags.complete.isLast = true ∧
        Flags.complete.has .didNotExecute = false := by decide
    obtain ⟨hfirst, hlast, hnot⟩ := hflags
    rw [hstatus]
    exact answered_fault rfl rfl rfl hid (fun _ => hcontext) ⟨hfirst, hlast, hnot, rfl⟩

/-- The payload of an operation. -/
theorem answered_response {callId : UInt32} {contextId : UInt16} (payload : List UInt8)
    (hroom : Header.size + Response.fixedLength < maxTransmit.toNat)
    (hid : callId = r.header.callId) (hcontext : contextId = r.contextId) :
    (Fate.response payload).Answered r maxTransmit (do
      encodeAll Response.encode (← Response.fragments callId contextId payload maxTransmit)) := by
  obtain ⟨rs, hrs, hdelivers, hfields⟩ :=
    Response.delivers_fragments callId contextId payload hroom
  obtain ⟨bs, us, hencode, hdecode, hlength, hsame, hpayload⟩ := hdelivers.arrives
  have hresponse : ∀ u ∈ us, (∃ r, u = .response r) ∧ u.Correlates r := by
    refine Pdu.forall_of_sameContent ?_ hsame ?_
    · rintro u u' hcontent ⟨⟨r', rfl⟩, hu⟩
      refine ⟨?_, hcontent.correlates hu⟩
      obtain ⟨fragmentLength, authLength, rfl⟩ := hcontent
      exact ⟨_, rfl⟩
    · intro u hu
      obtain ⟨r', hr', rfl⟩ := List.mem_map.mp hu
      obtain ⟨hheader, hcontext'⟩ := hfields r' hr'
      refine ⟨⟨r', rfl⟩, ?_, ?_, fun _ => ?_⟩
      · have hstandard : r'.header.representation = .standard := by rw [hheader]; rfl
        rw [Pdu.header, hstandard]
        rfl
      · rw [Pdu.header, hheader]
        exact hid
      · rw [Pdu.contextId?, hcontext', hcontext]
  have hsome : us ≠ [] := by
    rintro rfl
    cases hpayload
  refine ⟨bs, us, ?_, hdecode, fun u hu => (hresponse u hu).2,
    .response hsome (fun u hu => (hresponse u hu).1) ?_ hpayload⟩
  · rw [hrs, ok_bind, encodeAll_eq_mapM, hencode]
  · intro b hb
    obtain ⟨i, hi, rfl⟩ := List.mem_iff_getElem.mp hb
    exact (hlength i hi).1

end Action

namespace Endpoint

/-- A context is accepted only by a service. -/
theorem Settled.exists_service {e : Endpoint} (h : e.Settled) {contextId : UInt16}
    (hcontext : (e.acceptedContext? contextId).isSome = true) : ∃ s, e.service = some s := by
  cases hservice : e.service with
  | some s => exact ⟨s, rfl⟩
  | none =>
    rw [acceptedContext?, h.contexts hservice] at hcontext
    cases hcontext

/-! ## What becomes of a request -/

/-- The request is the last fragment of a call, whose stubs make up `stub`. -/
structure EndsCall (e : Endpoint) (r : Request) (stub : List UInt8) : Prop where
  spoken : r.header.major = Header.version
  accepted : e.assembly.Accepts r.fragment
  isLast : r.header.flags.isLast = true
  stub : stub = e.assembly.gathered ++ r.stub

/-- The request ends a call on an accepted context, which goes to the service. -/
structure Calls (e : Endpoint) (r : Request) (stub : List UInt8) (s : Service) : Prop
    extends e.EndsCall r stub where
  context : (e.acceptedContext? r.contextId).isSome = true
  service : e.service = some s

/-- What becomes of a request, and why. -/
inductive Decides (e : Endpoint) (r : Request) : Fate → Prop
  | foreign (hmajor : r.header.major ≠ Header.version) : Decides e r (.fault .protocolError)
  | outOfSequence (hspoken : r.header.major = Header.version)
      (hplace : ¬ e.assembly.Accepts r.fragment) : Decides e r (.fault .protocolError)
  | pending (hspoken : r.header.major = Header.version) (hplace : e.assembly.Accepts r.fragment)
      (hlast : r.header.flags.isLast = false) : Decides e r .pending
  | unknownInterface {stub : List UInt8} (hends : e.EndsCall r stub)
      (hcontext : e.acceptedContext? r.contextId = none) : Decides e r (.fault .unknownInterface)
  | noOperation {stub : List UInt8} {s : Service} (hcalls : e.Calls r stub s)
      (hoperation : s.operations.get? r.opnum = none) : Decides e r (.fault .opRangeError)
  | unsupported {stub : List UInt8} {s : Service} {handler : Handler} {opnum : UInt16}
      (hcalls : e.Calls r stub s) (hoperation : s.operations.get? r.opnum = some handler)
      (hresult : handler stub = .error (.unsupportedOperation opnum)) :
    Decides e r (.fault .opRangeError)
  | failed {stub : List UInt8} {s : Service} {handler : Handler} {err : Error}
      (hcalls : e.Calls r stub s) (hoperation : s.operations.get? r.opnum = some handler)
      (hresult : handler stub = .error err) (herr : ∀ opnum, err ≠ .unsupportedOperation opnum) :
    Decides e r (.fault .ndrFault)
  | answered {stub : List UInt8} {s : Service} {handler : Handler} {payload : List UInt8}
      (hcalls : e.Calls r stub s) (hoperation : s.operations.get? r.opnum = some handler)
      (hresult : handler stub = .ok payload) : Decides e r (.response payload)

variable {e : Endpoint} {g : GroupAllocator} {data : List UInt8} {r : Request} {fate : Fate}

/-- Something becomes of every request. -/
theorem exists_decides (h : e.Settled) (r : Request) : ∃ fate, e.Decides r fate := by
  by_cases hspoken : r.header.major = Header.version
  · by_cases hplace : e.assembly.Accepts r.fragment
    · cases hlast : r.header.flags.isLast with
      | false => exact ⟨_, .pending hspoken hplace hlast⟩
      | true =>
        have hends : e.EndsCall r (e.assembly.gathered ++ r.stub) := ⟨hspoken, hplace, hlast, rfl⟩
        cases hcontext : e.acceptedContext? r.contextId with
        | none => exact ⟨_, .unknownInterface hends hcontext⟩
        | some t =>
          have haccepted : (e.acceptedContext? r.contextId).isSome = true := by rw [hcontext]; rfl
          obtain ⟨s, hs⟩ := h.exists_service haccepted
          have hcalls : e.Calls r _ s := ⟨hends, haccepted, hs⟩
          cases hoperation : s.operations.get? r.opnum with
          | none => exact ⟨_, .noOperation hcalls hoperation⟩
          | some handler =>
            cases hresult : handler (e.assembly.gathered ++ r.stub) with
            | ok payload => exact ⟨_, .answered hcalls hoperation hresult⟩
            | error err =>
              by_cases herr : ∃ opnum, err = .unsupportedOperation opnum
              · obtain ⟨opnum, rfl⟩ := herr
                exact ⟨_, .unsupported hcalls hoperation hresult⟩
              · exact ⟨_, .failed hcalls hoperation hresult fun opnum ho => herr ⟨opnum, ho⟩⟩
    · exact ⟨_, .outOfSequence hspoken hplace⟩
  · exact ⟨_, .foreign hspoken⟩

theorem EndsCall.push {stub : List UInt8} (h : e.EndsCall r stub) :
    (e.assembly.push r.fragment).1 = .ok (some stub) :=
  Assembly.push_eq_some_iff.mpr ⟨h.accepted, h.isLast, h.stub⟩

theorem Calls.judgeRequest {stub : List UInt8} {s : Service} (h : e.Calls r stub s) :
    (e.judgeRequest r).1 = .execute ⟨r.header.callId, r.contextId, r.opnum, stub, s⟩ := by
  obtain ⟨t, ht⟩ := Option.isSome_iff_exists.mp h.context
  rw [judgeRequest_action, h.toEndsCall.push]
  simp only [h.service, ht]

/-- The client is told what becomes of its request. -/
theorem Decides.told (hdecides : e.Decides r fate) (h : e.Settled)
    (hdecode : Pdu.decode data = .ok (.request r)) (g : GroupAllocator) :
    fate.Answered r e.maxTransmit (e.process g data).answers := by
  have hprocess : r.header.major = Header.version →
      (e.process g data).answers = (e.judgeRequest r).1.perform e.maxTransmit := by
    intro hspoken
    rw [process_request_of_decode hdecode hspoken]
  have hexecute : ∀ {stub : List UInt8} {s : Service}, e.Calls r stub s →
      (e.process g data).answers = (Action.execute
        ⟨r.header.callId, r.contextId, r.opnum, stub, s⟩).perform e.maxTransmit := by
    intro stub s hcalls
    rw [hprocess hcalls.spoken, hcalls.judgeRequest]
  cases hdecides with
  | foreign hmajor =>
    have hkind : r.header.kind = .request := by
      obtain ⟨-, hmem⟩ := Pdu.parse_of_decode hdecode
      exact List.mem_singleton.mp hmem
    have hjudge : e.judge g data = .ok (.protocolFault r.header.callId 0, e, g) := by
      rw [judge_of_decode hdecode]
      simp [Pdu.header, hmajor, hkind]
    rw [process_of_judge hjudge]
    exact Action.answered_notExecuted (fun hspoken => absurd hspoken hmajor) (by decide)
  | outOfSequence hspoken hplace =>
    obtain ⟨defect, hpush⟩ := Assembly.push_of_not_accepts hplace
    rw [hprocess hspoken, judgeRequest_action, hpush]
    exact Action.answered_notExecuted (fun _ => rfl) (by decide)
  | pending hspoken hplace hlast =>
    rw [hprocess hspoken, judgeRequest_action, Assembly.push_of_not_last hplace hlast]
    exact Action.answered_silent
  | unknownInterface hends hcontext =>
    have haction : (e.judgeRequest r).1 =
        .reply (.fault (.notExecuted r.header.callId r.contextId .unknownInterface)) := by
      rw [judgeRequest_action, hends.push, hcontext]
      cases e.service <;> rfl
    rw [hprocess hends.spoken, haction]
    exact Action.answered_notExecuted (fun _ => rfl) (by decide)
  | noOperation hcalls hoperation =>
    rw [hexecute hcalls]
    refine Action.answered_failure (.unsupportedOperation r.opnum) rfl rfl ?_
    simp only [Service.dispatch, hoperation]
  | @unsupported stub s handler opnum hcalls hoperation hresult =>
    rw [hexecute hcalls]
    refine Action.answered_failure (.unsupportedOperation opnum) rfl rfl ?_
    simp only [Service.dispatch, hoperation, hresult]
  | @failed stub s handler err hcalls hoperation hresult herr =>
    have hstatus : FaultStatus.ofError err = .ndrFault := by
      unfold FaultStatus.ofError
      split
      · exact absurd rfl (herr _)
      · rfl
    rw [hexecute hcalls, ← hstatus]
    refine Action.answered_failure err rfl rfl ?_
    simp only [Service.dispatch, hoperation, hresult]
  | @answered stub s handler payload hcalls hoperation hresult =>
    have hroom : Header.size + Response.fixedLength < e.maxTransmit.toNat :=
      Nat.lt_of_lt_of_le (by decide) h.room
    have hdispatch : s.dispatch r.opnum stub = .ok payload := by
      simp only [Service.dispatch, hoperation, hresult]
    rw [hexecute hcalls, Action.perform, hdispatch]
    exact Action.answered_response payload hroom rfl rfl

/-- **The answers to requests.** In every state of an endpoint, a request that can be decoded is
answered by units that are read as answers to it, and something becomes of it: exactly what the
units tell. -/
theorem decides_iff_told (h : Reachable New e) (g : GroupAllocator)
    (hdecode : Pdu.decode data = .ok (.request r)) :
    ∃ bs us, (e.process g data).answers = .ok bs ∧ bs.mapM Pdu.decode = .ok us ∧
      (∀ u ∈ us, u.Correlates r) ∧ (∃ fate, e.Decides r fate) ∧
      ∀ fate, e.Decides r fate ↔ fate.Told e.maxTransmit bs us := by
  obtain ⟨fate, hfate⟩ := exists_decides h.settled r
  obtain ⟨bs, us, hanswers, hus, hcorrelates, htold⟩ := hfate.told h.settled hdecode g
  refine ⟨bs, us, hanswers, hus, hcorrelates, ⟨fate, hfate⟩, fun fate' => ⟨fun hfate' => ?_, ?_⟩⟩
  · obtain ⟨bs', us', hanswers', hus', -, htold'⟩ := hfate'.told h.settled hdecode g
    rw [hanswers, Except.ok.injEq] at hanswers'
    subst hanswers'
    rw [hus, Except.ok.injEq] at hus'
    subst hus'
    exact htold'
  · intro htold'
    rw [htold'.unique htold]
    exact hfate

/-- A whole call on context zero. -/
def sampleCall : List UInt8 :=
  [5, 0, 0, 3, 16, 0, 0, 0, 24, 0, 0, 0, 7, 0, 0, 0, 0, 0, 0, 0, 0, 0, 1, 0]

/-- Before a bind, it is answered by the fault that says so. -/
theorem decides_iff_told_sampleCall :
    ∃ b f, ((ofService bareService).process .new sampleCall).answers = .ok [b] ∧
      Pdu.decode b = .ok (.fault f) ∧ f.header.callId = 7 ∧ f.Tells .unknownInterface := by
  let r : Request := ⟨⟨5, 0, .request, .complete, .standard, 24, 0, 7⟩, 0, 0, 1, none, [], []⟩
  have hdecode : Pdu.decode sampleCall = .ok (.request r) := rfl
  have hflags : Flags.complete.isFirst = true ∧ Flags.complete.isLast = true := by decide
  have hends : (ofService bareService).EndsCall r [] := ⟨rfl, hflags.1, hflags.2, rfl⟩
  obtain ⟨bs, us, hanswers, hus, hcorrelates, -, htold⟩ :=
    decides_iff_told (.start (.ofService bareService)) .new hdecode
  cases (htold _).mp (.unknownInterface hends rfl) with
  | @fault _ b f _ hf =>
    refine ⟨b, f, hanswers, ?_, (hcorrelates _ (List.mem_singleton_self _)).callId, hf⟩
    obtain ⟨u, hu, hrest⟩ := bind_ok_iff.mp hus
    cases hrest
    exact hu

end Endpoint

end RemoteCall
