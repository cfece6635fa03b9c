import RemoteCall.Proofs.Endpoint.History
import RemoteCall.Proofs.Pdu.Decoding

/-! Which calls an endpoint executes, over whole runs. -/

namespace RemoteCall

/-- The units that answer what the endpoint does not go into. -/
inductive Pdu.Refuses : Pdu → Prop
  | fault (callId : UInt32) (contextId : UInt16) (status : FaultStatus) :
    Refuses (.fault (.notExecuted callId contextId status))
  | bindNak (callId : UInt32) (reason : RefusalReason) : Refuses (.bindNak (.of callId reason))

/-- A unit of the version that is spoken. -/
def IsSpoken (data : List UInt8) : Prop :=
  ∃ u, Pdu.decode data = .ok u ∧ u.header.major = Header.version

/-- The handler that the action invokes, and the input it is given. -/
def Action.invocation : Action → Option (Handler × List UInt8)
  | silent | reply _ => none
  | execute call =>
    (call.service.operations.get? call.opnum).map fun handler => (handler, call.stub)

/-- The units to send when the handler that was invoked, if one was, gave `result`. -/
def Action.answers (maxTransmit : UInt16) (result : Option (Except Error (List UInt8))) :
    Action → Except Error (List (List UInt8))
  | silent => .ok []
  | reply unit => do return [← unit.encode]
  | execute call => match result.getD (.error (.unsupportedOperation call.opnum)) with
    | .ok payload => do
      encodeAll Response.encode
        (← Response.fragments call.callId call.contextId payload maxTransmit)
    | .error e => do return [← (failure call e).encode]

/-- Handlers have a say in what is sent only through the one that is invoked. -/
theorem Action.perform_eq_answers (maxTransmit : UInt16) (action : Action) :
    action.perform maxTransmit =
      action.answers maxTransmit (action.invocation.map fun i => i.1 i.2) := by
  cases action with
  | silent => rfl
  | reply unit => rfl
  | execute call =>
    cases h : call.service.operations.get? call.opnum with
    | none =>
      simp only [perform, answers, Service.dispatch, invocation, h, Option.map_none,
        Option.getD_none]
    | some handler =>
      cases hresult : handler call.stub <;>
        simp only [perform, answers, Service.dispatch, invocation, h, hresult, Option.map_some,
          Option.getD_some]

namespace Endpoint

/-- The handler that is invoked while a unit is processed, and the input it is given. -/
def invocation (e : Endpoint) (g : GroupAllocator) (data : List UInt8) :
    Option (Handler × List UInt8) :=
  match e.judge g data with
  | .ok (action, _) => action.invocation
  | .error _ => none

/-- The endpoint after these units. Each comes with the allocator of groups as it is then, for the
endpoint shares it with others. -/
def after (e : Endpoint) : List (GroupAllocator × List UInt8) → Endpoint
  | [] => e
  | (g, data) :: items => (e.process g data).endpoint.after items

variable {e : Endpoint} {g : GroupAllocator} {data : List UInt8}

/-! ## One unit -/

theorem judge_of_decode {u : Pdu} (h : Pdu.decode data = .ok u) :
    e.judge g data = .ok (if u.header.major != Header.version && u.header.kind != .bind
      then (.protocolFault u.header.callId 0, e, g) else e.judgePdu g u) := by
  obtain ⟨hparse, -⟩ := Pdu.parse_of_decode h
  unfold judge
  rw [hparse, h, ok_bind]
  cases u.header.major != Header.version && u.header.kind != .bind <;> rfl

/-- A unit of the version that is spoken is judged by its kind. -/
theorem judge_of_spoken {u : Pdu} (h : Pdu.decode data = .ok u)
    (hmajor : u.header.major = Header.version) : e.judge g data = .ok (e.judgePdu g u) := by
  rw [judge_of_decode h, hmajor, bne_self_eq_false, Bool.false_and, if_neg Bool.false_ne_true]

theorem judgeBind_of_foreign {p : Proposal} (hmajor : p.header.major ≠ Header.version) :
    e.judgeBind g p =
      (.reply (.bindNak (.of p.header.callId .protocolVersionNotSupported)), e, g) := by
  unfold judgeBind
  rw [if_pos (bne_iff_ne.mpr hmajor)]

/-- Anything else is an error or it is refused, whatever the endpoint, which stays as it is. -/
theorem judge_of_not_spoken (h : ¬ IsSpoken data) :
    (∃ err, ∀ (e : Endpoint) (g : GroupAllocator), e.judge g data = .error err) ∨
      ∃ unit : Pdu, unit.Refuses ∧
        ∀ (e : Endpoint) (g : GroupAllocator), e.judge g data = .ok (.reply unit, e, g) := by
  cases hdecode : Pdu.decode data with
  | error err =>
    unfold judge
    rw [hdecode]
    cases Header.parse data with
    | error err => exact .inl ⟨err, fun _ _ => rfl⟩
    | ok header =>
      simp only [ok_bind]
      cases header.major != Header.version && header.kind != .bind with
      | true => exact .inr ⟨_, .fault header.callId 0 _, fun _ _ => rfl⟩
      | false => exact .inl ⟨err, fun _ _ => rfl⟩
  | ok u =>
    have hmajor : u.header.major ≠ Header.version := fun hmajor => h ⟨u, hdecode, hmajor⟩
    refine .inr ?_
    by_cases hkind : u.header.kind = .bind
    · -- Only a bind is looked into.
      obtain ⟨-, hmem⟩ := Pdu.parse_of_decode hdecode
      obtain ⟨p, rfl⟩ := Pdu.eq_bind_of_kind hmem hkind
      refine ⟨_, .bindNak p.header.callId .protocolVersionNotSupported, fun e g => ?_⟩
      rw [judge_of_decode hdecode, hkind, bne_self_eq_false, Bool.and_false,
        if_neg Bool.false_ne_true]
      exact congrArg Except.ok (judgeBind_of_foreign hmajor)
    · refine ⟨_, .fault u.header.callId 0 .protocolError, fun e g => ?_⟩
      rw [judge_of_decode hdecode, bne_iff_ne.mpr hmajor, bne_iff_ne.mpr hkind, Bool.and_self,
        if_pos rfl]
      rfl

end Endpoint

/-- The invocation that a fragment leads to. -/
def Event.invocation (e : Endpoint) : Event → Option (Handler × List UInt8)
  | request r => (e.judgeRequest r).1.invocation
  | _ => none

theorem Event.of_not_spoken {data : List UInt8} (h : ¬ IsSpoken data) : Event.of data = inert := by
  cases hdecode : Pdu.decode data with
  | error err => simp only [of, hdecode]
  | ok u =>
    have hmajor : u.header.major ≠ Header.version := fun hmajor => h ⟨u, hdecode, hmajor⟩
    cases u with
    | bind p =>
      have hp : p.header.major ≠ Header.version := hmajor
      simp only [of, hdecode, hp, if_false]
    | request r =>
      have hr : r.header.major ≠ Header.version := hmajor
      simp only [of, hdecode, hr, if_false]
    | other header body =>
      have hheader : header.major ≠ Header.version := hmajor
      simp only [of, hdecode, hheader, false_and, if_false]
    | _ => simp only [of, hdecode]

namespace Endpoint

variable {e e' : Endpoint} {g g' : GroupAllocator} {data : List UInt8} {action : Action}

/-- A fragment goes to the assembly, and to nothing else in the state. -/
theorem judgeRequest_endpoint (e : Endpoint) (r : Request) :
    (e.judgeRequest r).2 = { e with assembly := (e.assembly.push r.fragment).2 } := by
  unfold judgeRequest
  rcases e.assembly.push r.fragment with ⟨pushed, assembly⟩
  cases pushed with
  | error defect => rfl
  | ok payload =>
    cases payload with
    | none => rfl
    | some stub =>
      dsimp only
      split <;> rfl

/-- What is decided on a fragment, told from what the assembly makes of it. -/
theorem judgeRequest_action (e : Endpoint) (r : Request) : (e.judgeRequest r).1 =
    match (e.assembly.push r.fragment).1 with
    | .error _ => .protocolFault r.header.callId r.contextId
    | .ok none => .silent
    | .ok (some stub) =>
      match e.service, e.acceptedContext? r.contextId with
      | some service, some _ => .execute ⟨r.header.callId, r.contextId, r.opnum, stub, service⟩
      | _, _ => .reply (.fault (.notExecuted r.header.callId r.contextId .unknownInterface)) := by
  unfold judgeRequest
  rcases e.assembly.push r.fragment with ⟨pushed, assembly⟩
  cases pushed with
  | error defect => rfl
  | ok payload =>
    cases payload with
    | none => rfl
    | some stub =>
      have hcontext : ({ e with assembly } : Endpoint).acceptedContext? r.contextId =
          e.acceptedContext? r.contextId := rfl
      dsimp only
      rw [hcontext]
      cases e.service with
      | none => rfl
      | some s => cases e.acceptedContext? r.contextId <;> rfl

theorem process_request_of_decode {r : Request} (hdecode : Pdu.decode data = .ok (.request r))
    (hmajor : r.header.major = Header.version) :
    e.process g data = ⟨(e.judgeRequest r).1.perform e.maxTransmit, (e.judgeRequest r).2, g⟩ := by
  have hjudge : e.judge g data = .ok ((e.judgeRequest r).1, (e.judgeRequest r).2, g) :=
    judge_of_spoken hdecode hmajor
  unfold process turn
  rw [hjudge]
  dsimp only
  rw [judgeRequest_endpoint]

/-- A unit of the version that is spoken does to the assembly what its event does. -/
theorem judgePdu_spec {u : Pdu} (hdecode : Pdu.decode data = .ok u)
    (hmajor : u.header.major = Header.version)
    (hjudge : e.judgePdu g u = (action, e', g')) :
    e'.assembly = (Event.of data).advance e.assembly ∧
      action.invocation = (Event.of data).invocation e := by
  cases u with
  | bind p =>
    have hp : p.header.major = Header.version := hmajor
    have hof : Event.of data = .reset := Event.of_eq_reset_iff.mpr (.inl ⟨p, hdecode, hp⟩)
    simp only [judgePdu, judgeBind, hp, bne_self_eq_false, Bool.false_eq_true, if_false] at hjudge
    cases hjudge
    rw [hof]
    exact ⟨rfl, rfl⟩
  | alterContext p =>
    have hof : Event.of data = .inert := by simp only [Event.of, hdecode]
    rw [hof]
    simp only [judgePdu, judgeAlterContext] at hjudge
    cases hgroup : e.group with
    | none =>
      rw [hgroup] at hjudge
      cases hjudge
      exact ⟨rfl, rfl⟩
    | some group =>
      rw [hgroup] at hjudge
      cases hjudge
      exact ⟨rfl, rfl⟩
  | request r =>
    have hof : Event.of data = .request r := Event.of_eq_request_iff.mpr ⟨hdecode, hmajor⟩
    cases hjudge
    rw [hof]
    exact ⟨congrArg assembly (judgeRequest_endpoint e r), rfl⟩
  | other header body =>
    have hheader : header.major = Header.version := hmajor
    by_cases hkind : header.kind = .orphaned
    · have hof : Event.of data = .reset :=
        Event.of_eq_reset_iff.mpr (.inr ⟨header, body, hdecode, hheader, hkind⟩)
      simp only [judgePdu, judgeOther, hkind] at hjudge
      cases hjudge
      rw [hof]
      exact ⟨rfl, rfl⟩
    · have hof : Event.of data = .inert := by
        simp only [Event.of, hdecode, hkind, and_false, if_false]
      have hother : e.judgeOther header = (.silent, e) := by
        unfold judgeOther
        split
        · contradiction
        · rfl
      simp only [judgePdu, hother] at hjudge
      cases hjudge
      rw [hof]
      exact ⟨rfl, rfl⟩
  | _ =>
    have hof : Event.of data = .inert := by simp only [Event.of, hdecode]
    cases hjudge
    rw [hof]
    exact ⟨rfl, rfl⟩

/-- So does any unit at all. -/
theorem judge_spec (hjudge : e.judge g data = .ok (action, e', g')) :
    e'.assembly = (Event.of data).advance e.assembly ∧
      action.invocation = (Event.of data).invocation e := by
  by_cases hspoken : IsSpoken data
  · obtain ⟨u, hdecode, hmajor⟩ := hspoken
    rw [judge_of_spoken hdecode hmajor, Except.ok.injEq] at hjudge
    exact judgePdu_spec hdecode hmajor hjudge
  · rw [Event.of_not_spoken hspoken]
    rcases judge_of_not_spoken hspoken with ⟨err, herr⟩ | ⟨unit, -, hrefused⟩
    · rw [herr] at hjudge
      cases hjudge
    · rw [hrefused] at hjudge
      cases hjudge
      exact ⟨rfl, rfl⟩

/-- What is an error has no effect. -/
theorem event_of_judge_error {err : Error} (hjudge : e.judge g data = .error err) :
    Event.of data = .inert := by
  refine Event.of_not_spoken ?_
  rintro ⟨u, hdecode, hmajor⟩
  rw [judge_of_spoken hdecode hmajor] at hjudge
  cases hjudge

/-- One step of the state: the assembly advances by the event. -/
theorem process_assembly :
    (e.process g data).endpoint.assembly = (Event.of data).advance e.assembly := by
  unfold process turn
  cases hjudge : e.judge g data with
  | error err =>
    rw [event_of_judge_error hjudge]
    rfl
  | ok judged =>
    obtain ⟨action, e', g'⟩ := judged
    exact (judge_spec hjudge).1

theorem invocation_eq : e.invocation g data = (Event.of data).invocation e := by
  unfold invocation
  cases hjudge : e.judge g data with
  | error err =>
    rw [event_of_judge_error hjudge]
    rfl
  | ok judged =>
    obtain ⟨action, e', g'⟩ := judged
    exact (judge_spec hjudge).2

/-- What is sent depends on the handlers through this invocation alone. -/
theorem process_answers_eq : (e.process g data).answers = (do
    let (action, e', _) ← e.judge g data
    action.answers e'.maxTransmit ((e.invocation g data).map fun i => i.1 i.2)) := by
  unfold process turn invocation
  cases e.judge g data with
  | error err => rfl
  | ok judged =>
    obtain ⟨action, e', g'⟩ := judged
    exact Action.perform_eq_answers e'.maxTransmit action

/-! ## Whole runs -/

/-- The events of a history. -/
def events (items : List (GroupAllocator × List UInt8)) : List Event :=
  items.map fun item => Event.of item.2

/-- Run: from a state that tracks its past, the endpoint goes on to track it. -/
theorem tracks_after {past : List Event} (h : Tracks past e.assembly)
    (items : List (GroupAllocator × List UInt8)) :
    Tracks (past ++ events items) (e.after items).assembly := by
  induction items generalizing e past with
  | nil =>
    rw [events, List.map_nil, List.append_nil]
    exact h
  | cons item items ih =>
    obtain ⟨g, data⟩ := item
    have hstep : Tracks (past ++ [Event.of data]) (e.process g data).endpoint.assembly := by
      rw [process_assembly]
      exact h.advance
    have hrest := ih hstep
    rw [List.append_assoc] at hrest
    exact hrest

/-- A request is executed if its last fragment is here, its context is accepted and its operation
exists. -/
theorem judgeRequest_invocation_iff {r : Request} {handler : Handler} {stub : List UInt8} :
    (e.judgeRequest r).1.invocation = some (handler, stub) ↔
      (e.assembly.push r.fragment).1 = .ok (some stub) ∧
        (e.acceptedContext? r.contextId).isSome = true ∧
        ∃ s, e.service = some s ∧ s.operations.get? r.opnum = some handler := by
  rw [judgeRequest_action]
  cases (e.assembly.push r.fragment).1 with
  | error defect => simp only [Action.protocolFault, Action.invocation, reduceCtorEq, false_and]
  | ok payload =>
    cases payload with
    | none => simp only [Action.invocation, reduceCtorEq, Except.ok.injEq, false_and]
    | some payload =>
      dsimp only
      cases e.service with
      | none => simp only [Action.invocation, reduceCtorEq, false_and, exists_false, and_false]
      | some s =>
        cases e.acceptedContext? r.contextId with
        | none =>
          simp only [Action.invocation, reduceCtorEq, Option.isSome_none, Bool.false_eq_true,
            false_and, and_false]
        | some t =>
          simp only [Action.invocation, Option.map_eq_some_iff, Prod.mk.injEq, Except.ok.injEq,
            Option.some.injEq, Option.isSome_some, true_and]
          constructor
          · rintro ⟨handler', hget, rfl, rfl⟩
            exact ⟨rfl, s, rfl, hget⟩
          · rintro ⟨rfl, s', rfl, hget⟩
            exact ⟨handler, hget, rfl, rfl⟩

/-- **The calls that an endpoint executes.** From a fresh state, behind a pipe or with services to
select from, what is sent for a unit depends on the handlers of the service through at most one
invocation: it is told by the verdict on the unit and by what this handler gives on its input. A
handler is invoked exactly when the unit ends an uninterrupted run of fragments, its context is
accepted, and the service has a handler for its operation number; that handler is invoked, on the
stubs of the run in the order of their arrival. -/
theorem invocation_after_iff (start : Service ⊕ Registry)
    (past : List (GroupAllocator × List UInt8)) (g : GroupAllocator) (data : List UInt8) :
    let e := (start.elim ofService ofRegistry).after past
    ((e.process g data).answers = do
      let (action, e', _) ← e.judge g data
      action.answers e'.maxTransmit ((e.invocation g data).map fun i => i.1 i.2)) ∧
    ∀ handler stub, e.invocation g data = some (handler, stub) ↔
      ∃ r, Event.of data = .request r ∧ Completes (events past) r stub ∧
        (e.acceptedContext? r.contextId).isSome = true ∧
        ∃ s, e.service = some s ∧ s.operations.get? r.opnum = some handler := by
  intro e
  have hfresh : Tracks [] (start.elim ofService ofRegistry).assembly := by
    refine .idle idle_nil ?_
    cases start <;> rfl
  have htracks : Tracks (events past) e.assembly := tracks_after hfresh past
  refine ⟨process_answers_eq, fun handler stub => ?_⟩
  rw [invocation_eq]
  constructor
  · intro hinvoked
    cases hof : Event.of data with
    | request r =>
      rw [hof] at hinvoked
      obtain ⟨hpush, hcontext, hservice⟩ := judgeRequest_invocation_iff.mp hinvoked
      exact ⟨r, rfl, htracks.push_eq_some_iff.mp hpush, hcontext, hservice⟩
    | reset =>
      rw [hof] at hinvoked
      cases hinvoked
    | inert =>
      rw [hof] at hinvoked
      cases hinvoked
  · rintro ⟨r, hof, hcompletes, hcontext, hservice⟩
    rw [hof]
    exact judgeRequest_invocation_iff.mpr
      ⟨htracks.push_eq_some_iff.mpr hcompletes, hcontext, hservice⟩

end Endpoint

end RemoteCall
