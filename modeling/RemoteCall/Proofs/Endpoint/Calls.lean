import Mathlib.Data.List.Forall2
import RemoteCall.Proofs.Delivery
import RemoteCall.Proofs.Endpoint.Execution

/-! What an endpoint does with the fragments of a call. All but the last are taken in without an
answer. The last one has the operation run, and what is sent then tells how it went: the payload in
fragments, or one fault. -/

namespace RemoteCall

/-- How a call ends for its caller: with the payload of the operation, or with a fault that says
whether the operation exists. -/
def Service.outcome (s : Service) (opnum : UInt16) (stub : List UInt8) :
    Except Error (List UInt8) :=
  match s.operations.get? opnum with
  | none => .error (.fault FaultStatus.opRangeError.code)
  | some handler =>
    match handler stub with
    | .ok payload => .ok payload
    | .error (.unsupportedOperation _) => .error (.fault FaultStatus.opRangeError.code)
    | .error _ => .error (.fault FaultStatus.ndrFault.code)

/-- The units that tell a caller how the call ended. -/
inductive Replies (callId : UInt32) : List Pdu → Except Error (List UInt8) → Prop
  | responses {rs : List Response} {payload : List UInt8}
      (hrs : Fragments callId true (rs.map Response.fragment) payload) :
      Replies callId (rs.map .response) (.ok payload)
  | fault (f : Fault) : Replies callId [.fault f] (.error (.fault f.status))

/-! ## Responses -/

/-- Responses are encoded one by one. -/
theorem Action.encodeAll_eq_mapM (rs : List Response) :
    encodeAll Response.encode rs = (rs.map Pdu.response).mapM Pdu.encode := by
  induction rs with
  | nil => rfl
  | cons r rs ih =>
    rw [encodeAll, ih, List.map_cons, List.mapM_cons]
    rfl

/-- A payload is always sent, in units that the peer puts together again. -/
theorem Response.replies_fragments (callId : UInt32) (contextId : UInt16) (payload : List UInt8)
    {maxFragment : UInt16} (hroom : Header.size + fixedLength < maxFragment.toNat) :
    ∃ rs bs, fragments callId contextId payload maxFragment = .ok rs ∧
      Action.encodeAll encode rs = .ok bs ∧ List.Forall₂ Pdu.Written (rs.map .response) bs ∧
      Replies callId (rs.map .response) (.ok payload) := by
  have hlt := maxFragment.toNat_lt
  let room := maxFragment.toNat - (Header.size + fixedLength)
  have hpos : 0 < room := by simp only [room]; omega
  have hcarried : ∀ s : Slice, s.data.length ≤ room → s.CarriedBy callId
      (Header.size + fixedLength) ((Pdu.response ∘ ofSlice callId contextId) s) := by
    intro s hs
    exact carriedBy_ofSlice callId contextId s (by simp only [room] at hs; omega)
  have hwritten := written_of_mem hpos hcarried payload
  have hrun := fragments_of_slices hpos hcarried payload
  rw [← List.map_map] at hwritten hrun
  obtain ⟨bs, hbs⟩ := Pdu.exists_written_all hwritten
  refine ⟨_, bs, ?_, ?_, hbs, .responses ?_⟩
  · rw [fragments, roomFor_of_lt hroom, ok_bind]
    rfl
  · rw [Action.encodeAll_eq_mapM, Pdu.mapM_encode hbs]
  · rw [List.map_map] at hrun
    exact hrun

/-! ## Faults -/

theorem Action.perform_reply {u : Pdu} {b : List UInt8} (hb : u.Written b) (maxTransmit : UInt16) :
    (reply u).perform maxTransmit = .ok [b] := by
  simp only [perform, hb.encode, ok_bind]
  rfl

theorem Fault.exists_written {f : Fault} (hkind : f.header.kind = .fault)
    (hstandard : f.header.representation = .standard) (hauth : f.auth = []) :
    ∃ b, (Pdu.fault f).Written b ∧ b.length = 32 :=
  Pdu.exists_written_of_length (u := .fault f) (n := 16) (List.mem_singleton.mpr hkind) trivial
    hstandard hauth (Fault.length_body _ f) (by decide)

/-- The fault that answers a failed operation. -/
theorem Action.failure_spec (call : Call) (e : Error) :
    (∃ b, (Pdu.fault (failure call e)).Written b ∧ b.length = 32) ∧
      (failure call e).status = (FaultStatus.ofError e).code := by
  unfold failure
  split
  · rename_i hstatus
    rw [hstatus]
    exact ⟨Fault.exists_written rfl rfl rfl, rfl⟩
  · exact ⟨Fault.exists_written rfl rfl rfl, rfl⟩

/-- A call that is executed is always answered, by the units that tell its outcome. -/
theorem Action.perform_execute (call : Call) {maxTransmit : UInt16}
    (hroom : Header.size + Response.fixedLength < maxTransmit.toNat) :
    ∃ us bs, (execute call).perform maxTransmit = .ok bs ∧ List.Forall₂ Pdu.Written us bs ∧
      Replies call.callId us (call.service.outcome call.opnum call.stub) := by
  have hfault : ∀ e, call.service.dispatch call.opnum call.stub = .error e →
      ∃ us bs, (execute call).perform maxTransmit = .ok bs ∧ List.Forall₂ Pdu.Written us bs ∧
        Replies call.callId us (.error (.fault (FaultStatus.ofError e).code)) := by
    intro e he
    obtain ⟨⟨b, hb, -⟩, hstatus⟩ := failure_spec call e
    have hencode : (failure call e).encode = .ok b := hb.encode
    refine ⟨[.fault (failure call e)], [b], ?_, .cons hb .nil, ?_⟩
    · simp only [perform, he, hencode, ok_bind]
      rfl
    · rw [← hstatus]
      exact .fault _
  unfold Service.outcome
  cases hget : call.service.operations.get? call.opnum with
  | none =>
    refine hfault (.unsupportedOperation call.opnum) ?_
    simp only [Service.dispatch, hget]
  | some handler =>
    have hdispatch : call.service.dispatch call.opnum call.stub = handler call.stub := by
      simp only [Service.dispatch, hget]
    cases hresult : handler call.stub with
    | ok payload =>
      simp only [hresult]
      obtain ⟨rs, bs, hrs, hbs, hwritten, hreplies⟩ :=
        Response.replies_fragments call.callId call.contextId payload hroom
      refine ⟨rs.map .response, bs, ?_, hwritten, hreplies⟩
      simp only [perform, hdispatch, hresult, hrs, ok_bind, hbs]
    | error e =>
      simp only [hresult]
      have hreplies := hfault e (hdispatch.trans hresult)
      cases e <;> exact hreplies

/-! ## Requests -/

namespace Endpoint

variable {e : Endpoint} {g : GroupAllocator} {b : List UInt8}

/-- A written unit is judged as it was before it was written, but for the lengths in its header. -/
theorem judge_written {u : Pdu} (hb : u.Written b) (hmajor : u.header.major = Header.version) :
    e.judge g b = .ok (e.judgePdu g (u.withHeader (Framed.header u.header u.verifier b))) := by
  have hmajor' : (u.withHeader (Framed.header u.header u.verifier b)).header.major
      = Header.version := by cases u <;> exact hmajor
  exact judge_of_spoken hb.decode hmajor'

/-- Calls on the context are made to the service, and there is room for what they answer. -/
structure Serves (e : Endpoint) (s : Service) (contextId : UInt16) : Prop where
  service : e.service = some s
  accepted : (e.acceptedContext? contextId).isSome = true
  room : Header.size + Response.fixedLength < e.maxTransmit.toNat

/-- An endpoint goes on to serve whatever it assembles. -/
theorem Serves.withAssembly {s : Service} {contextId : UInt16} (h : e.Serves s contextId)
    (assembly : Assembly) : ({ e with assembly } : Endpoint).Serves s contextId :=
  ⟨h.service, h.accepted, h.room⟩

/-- A fragment is processed by its call, its context, its operation and its stub. -/
theorem process_request {r : Request} (hb : (Pdu.request r).Written b)
    (hmajor : r.header.major = Header.version) :
    e.process g b = ⟨(e.judgeRequest r).1.perform e.maxTransmit, (e.judgeRequest r).2, g⟩ :=
  process_request_of_decode (r := { r with header := Framed.header r.header r.auth b })
    hb.decode hmajor

theorem process_more {r : Request} (hb : (Pdu.request r).Written b)
    (hmajor : r.header.major = Header.version) (haccepts : e.assembly.Accepts r.fragment)
    (hlast : r.header.flags.isLast = false) :
    e.process g b = ⟨.ok [], { e with
      assembly := .accumulating r.header.callId (e.assembly.gathered ++ r.stub) }, g⟩ := by
  have hjudge : e.judgeRequest r = (.silent, { e with
      assembly := .accumulating r.header.callId (e.assembly.gathered ++ r.stub) }) := by
    unfold judgeRequest
    rw [Assembly.push_of_not_last haccepts hlast]
    rfl
  rw [process_request hb hmajor, hjudge]
  rfl

/-- How a call on the context ends for its caller. -/
def outcome (e : Endpoint) (contextId opnum : UInt16) (stub : List UInt8) :
    Except Error (List UInt8) :=
  match e.service, e.acceptedContext? contextId with
  | some s, some _ => s.outcome opnum stub
  | _, _ => .error (.fault FaultStatus.unknownInterface.code)

theorem Serves.outcome {s : Service} {contextId : UInt16} (h : e.Serves s contextId)
    (opnum : UInt16) (stub : List UInt8) :
    e.outcome contextId opnum stub = s.outcome opnum stub := by
  obtain ⟨t, ht⟩ := Option.isSome_iff_exists.mp h.accepted
  unfold Endpoint.outcome
  rw [h.service, ht]

/-- The last fragment of a call is answered by the units that tell how the call ends. -/
theorem process_last {r : Request} (hb : (Pdu.request r).Written b)
    (hmajor : r.header.major = Header.version) (haccepts : e.assembly.Accepts r.fragment)
    (hlast : r.header.flags.isLast = true)
    (hroom : Header.size + Response.fixedLength < e.maxTransmit.toNat) :
    ∃ us bs, e.process g b = ⟨.ok bs, { e with assembly := .complete r.header.callId }, g⟩ ∧
      List.Forall₂ Pdu.Written us bs ∧ Replies r.header.callId us
        (e.outcome r.contextId r.opnum (e.assembly.gathered ++ r.stub)) := by
  have hpush := Assembly.push_of_last haccepts hlast
  have hanswers : ∃ us bs, (e.judgeRequest r).1.perform e.maxTransmit = .ok bs ∧
      List.Forall₂ Pdu.Written us bs ∧ Replies r.header.callId us
        (e.outcome r.contextId r.opnum (e.assembly.gathered ++ r.stub)) := by
    have hunknown : ∃ us bs, (Action.reply (.fault (.notExecuted r.header.callId r.contextId
        .unknownInterface))).perform e.maxTransmit = .ok bs ∧ List.Forall₂ Pdu.Written us bs ∧
        Replies r.header.callId us
          (.error (.fault FaultStatus.unknownInterface.code)) := by
      obtain ⟨b, hb, -⟩ := Fault.exists_written (f := .notExecuted r.header.callId r.contextId
        .unknownInterface) rfl rfl rfl
      exact ⟨_, [b], Action.perform_reply hb _, .cons hb .nil, .fault _⟩
    rw [judgeRequest_action, hpush]
    unfold outcome
    dsimp only
    cases e.service with
    | none => exact hunknown
    | some s =>
      cases e.acceptedContext? r.contextId with
      | none => exact hunknown
      | some t => exact Action.perform_execute ⟨r.header.callId, r.contextId, r.opnum, _, s⟩ hroom
  obtain ⟨us, bs, hperform, hbs, hreplies⟩ := hanswers
  refine ⟨us, bs, ?_, hbs, hreplies⟩
  rw [process_request hb hmajor, hperform, judgeRequest_endpoint, hpush]
  rfl

end Endpoint

end RemoteCall
