import RemoteCall.Proofs.Client.Bind

/-! Calls of a client to the service behind its pipe, end to end. Each call ends as the operation
does, whatever the calls before were and however they ended, and leaves nothing behind. -/

namespace RemoteCall.Client

variable {s : Service} {c : Client} {l : PipeLink} {contextId : UInt16}

/-- The fragments of a request can all be sent, and carry its stub. -/
theorem sendable_fragments (callId : UInt32) (contextId opnum : UInt16) (stub : List UInt8)
    {maxFragment : UInt16} (hroom : Header.size + Request.fixedLength none < maxFragment.toNat) :
    ∃ rs, Request.fragments callId contextId opnum none stub maxFragment = .ok rs ∧
      (∀ r ∈ rs, Sendable contextId opnum r) ∧
      Fragments callId true (rs.map Request.fragment) stub := by
  let room := maxFragment.toNat - (Header.size + Request.fixedLength none)
  let ofSlice := Request.ofSlice callId contextId opnum none
  have hmax := maxFragment.toNat_lt
  have hpos : 0 < room := Nat.sub_pos_of_lt hroom
  have hcarried : ∀ slice : Slice, slice.data.length ≤ room →
      slice.CarriedBy callId (Header.size + Request.fixedLength none) (.request (ofSlice slice)) :=
    fun slice hslice => Request.carriedBy_ofSlice callId contextId opnum none slice (by omega)
  refine ⟨(slices room true stub).map ofSlice, ?_, ?_, ?_⟩
  · rw [Request.fragments, roomFor_of_lt hroom, ok_bind]
    rfl
  · intro r hr
    obtain ⟨slice, hslice, rfl⟩ := List.mem_map.mp hr
    obtain ⟨b, hb, -⟩ := (carriedBy_of_mem hpos hcarried stub hslice).written
    exact ⟨⟨b, hb⟩, rfl, rfl, rfl⟩
  · have hrun := fragments_of_slices hpos hcarried stub
    rw [List.map_map] at hrun ⊢
    exact hrun

/-- Whatever is sent of a request is a unit, and not too long. -/
theorem written_of_fragments {callId : UInt32} {opnum : UInt16} {stub : List UInt8}
    {maxFragment : UInt16} {rs : List Request}
    (hrs : Request.fragments callId contextId opnum none stub maxFragment = .ok rs) {r : Request}
    (hr : r ∈ rs) {data : List UInt8} (hdata : r.encode = .ok data) :
    (Pdu.request r).Written data ∧ r.header.major = Header.version ∧
      data.length ≤ maxFragment.toNat := by
  obtain ⟨room, hfits, -⟩ := bind_ok_iff.mp hrs
  have hroom : Header.size + Request.fixedLength none < maxFragment.toNat := lt_of_roomFor hfits
  obtain ⟨rs', hrs', hsendable, -⟩ := sendable_fragments callId contextId opnum stub hroom
  cases hrs.symm.trans hrs'
  obtain ⟨rs', hrs', hdelivers, -⟩ :=
    Request.delivers_fragments callId contextId opnum none stub hroom
  cases hrs.symm.trans hrs'
  obtain ⟨⟨b, hb⟩, hmajor, -, -⟩ := hsendable r hr
  have hencode : (Pdu.request r).encode = .ok data := hdata
  obtain rfl : b = data := Except.ok.inj (hb.encode.symm.trans hencode)
  exact ⟨hb, hmajor, hdelivers.length_le (List.mem_map_of_mem hr) hencode⟩

/-- There are no more units than bytes. -/
theorem length_le_of_written {us : List Pdu} {bs : List (List UInt8)}
    (h : List.Forall₂ Pdu.Written us bs) : bs.length ≤ bs.flatten.length := by
  induction h with
  | nil => exact Nat.le_refl _
  | cons hb _ ih =>
    have hpos := hb.length_pos
    rw [List.length_cons, List.flatten_cons, List.length_append]
    omega

/-- A call ends as the endpoint has it end, and leaves nothing in the pipe. -/
theorem call_of_quiet (hl : Receptive l) (hquiet : Quiet l) {a : Association}
    (ha : c.association = some a)
    (hroom : Header.size + Request.fixedLength none < a.maxTransmit.toNat) (opnum : UInt16)
    (stub : List UInt8) :
    call PipeLink.transport opnum stub (c, l) =
      given (l.pipe.endpoint.outcome a.contextId opnum stub)
        ({ c with callId := c.callId + 1 }, replied l (c.callId + 1) []) := by
  obtain ⟨rs, hrs, hsendable, hrun⟩ :=
    sendable_fragments (c.callId + 1) a.contextId opnum stub hroom
  obtain ⟨us, bs, hsent, hbs, hreplies⟩ :=
    sendAll_fragments (c := { c with callId := c.callId + 1 }) hl hsendable hrun hquiet.assembly
  rw [Assembly.gathered_of_idle hquiet.assembly, List.nil_append] at hreplies
  have hout : (replied l (c.callId + 1) bs).pipe.outbound = bs.flatten :=
    (congrArg (· ++ bs.flatten) hquiet.outbound).trans (List.nil_append _)
  have hsupply : bs.length ≤ PipeLink.transport.supply (replied l (c.callId + 1) bs) := by
    have hle := length_le_of_written hbs
    rw [← hout] at hle
    exact hle
  have hcollected := collect_replies (c := { c with callId := c.callId + 1 }) hreplies hbs
    (l := replied l (c.callId + 1) bs) hl.connected hout hsupply
  have hlink : (replied l (c.callId + 1) bs).withQueue [] = replied l (c.callId + 1) [] := by
    simp only [replied, PipeLink.withQueue, PipeLink.answered, Pipe.answered, hquiet.outbound,
      List.flatten_nil, List.append_nil]
  rw [hlink] at hcollected
  rw [call_of_bound ha]
  refine (bind_of_ok (given_of_ok hrs)).trans ((bind_of_ok hsent).trans ?_)
  exact (bind_of_ok rfl).trans hcollected

/-- Step: one call, from a quiet state to a quiet state. -/
theorem call_bound (hbound : Bound s c l) (hquiet : Quiet l) (opnum : UInt16) (stub : List UInt8) :
    ∃ c' l', call PipeLink.transport opnum stub (c, l) = given (s.outcome opnum stub) (c', l') ∧
      Bound s c' l' ∧ Quiet l' := by
  obtain ⟨⟨a, ha, hcontext, hroom⟩, hready⟩ := hbound
  have hcall := call_of_quiet hready.receptive hquiet ha hroom opnum stub
  rw [hcontext, hready.serves.outcome] at hcall
  refine ⟨_, _, hcall, ⟨⟨a, ha, hcontext, hroom⟩, ?_⟩, hquiet.answered _ rfl⟩
  exact ⟨hready.connected, hready.inbound, hready.size, hready.serves.withAssembly _⟩

/-- Calls one after the other, each with its result and the state that it leaves. A call that failed
does not keep the client from making the next one. -/
def callAll {σ : Type} (t : Transport σ) :
    List (UInt16 × List UInt8) → Client × σ → List (Except Error (List UInt8) × (Client × σ))
  | [], _ => []
  | (opnum, stub) :: calls, st =>
    match call t opnum stub st with
    | .ok payload st => (.ok payload, st) :: callAll t calls st
    | .error e st => (.error e, st) :: callAll t calls st

/-- Run: all calls end as their operations do, and each leaves a quiet state. -/
theorem callAll_bound (hbound : Bound s c l) (hquiet : Quiet l)
    (calls : List (UInt16 × List UInt8)) :
    (callAll PipeLink.transport calls (c, l)).map (·.1)
        = calls.map (fun call => s.outcome call.1 call.2) ∧
      ∀ result ∈ callAll PipeLink.transport calls (c, l), Quiet result.2.2 := by
  induction calls generalizing c l with
  | nil =>
    refine ⟨rfl, ?_⟩
    intro result hresult
    cases hresult
  | cons next calls ih =>
    obtain ⟨opnum, stub⟩ := next
    obtain ⟨c', l', hcall, hbound', hquiet'⟩ := call_bound hbound hquiet opnum stub
    obtain ⟨hresults, hall⟩ := ih hbound' hquiet'
    have hcons : callAll PipeLink.transport ((opnum, stub) :: calls) (c, l)
        = (s.outcome opnum stub, (c', l')) :: callAll PipeLink.transport calls (c', l') := by
      rw [callAll, hcall]
      cases s.outcome opnum stub <;> rfl
    rw [hcons]
    refine ⟨congrArg (s.outcome opnum stub :: ·) hresults, ?_⟩
    intro result hresult
    rcases List.mem_cons.mp hresult with rfl | hresult
    · exact hquiet'
    · exact hall result hresult

/-- **Calls end to end.** A client binds to the service behind a pipe that was just opened and makes
any calls: each ends as its operation does, and after each of them nothing waits in the pipe and no
call is in progress behind it. -/
theorem bind_then_callAll (s : Service) (c : Client) (id : Nat) (name path : String)
    (g : GroupAllocator) (hndr : SyntaxId.ndr2 ∈ s.transferSyntaxes)
    (hname : s.pipeName.utf8ByteSize ≤ 59000) (hroom : 25 ≤ c.config.maxTransmit.toNat)
    (calls : List (UInt16 × List UInt8)) :
    ∃ a st, bind PipeLink.transport s.interface
        (c, .of path (.of id name (.ofService s)) g) = .ok a st ∧
      (callAll PipeLink.transport calls st).map (·.1)
        = calls.map (fun call => s.outcome call.1 call.2) ∧
      ∀ result ∈ callAll PipeLink.transport calls st, Quiet result.2.2 := by
  obtain ⟨a, c', l', hbind, hbound, hquiet⟩ :=
    bind_bound (c := c) (l := .of path (.of id name (.ofService s)) g) rfl (Nat.le_refl _)
      ⟨rfl, rfl, rfl⟩ rfl rfl hndr hname hroom
  exact ⟨a, (c', l'), hbind, callAll_bound hbound hquiet calls⟩

/-- A service that gives back what it gets, after an operation that is not supported after all and
one that fails. -/
def sampleService : Service where
  interface := ⟨⟨1, 2, 3, 4⟩, 1, 0, "echo"⟩
  pipeName := "echo"
  transferSyntaxes := [.featureNegotiation, .ndr2]
  operations := ⟨[(0, fun _ => .error (.unsupportedOperation 0)), (1, fun _ => .error .timeout),
    (2, .ok)]⟩

/-- Each unit has room for one byte of a stub. -/
theorem bind_then_callAll_sampleService :
    ∃ a st, bind PipeLink.transport sampleService.interface
        (.of { maxTransmit := 25, maxReceive := 0 },
          .of "echo" (.of 1 "echo" (.ofService sampleService)) .new) = .ok a st ∧
      (callAll PipeLink.transport [(2, [7, 8, 9]), (0, [1, 2]), (5, []), (1, [3]), (2, [])] st).map
          (·.1)
        = [.ok [7, 8, 9], .error (.fault 0x1c010002), .error (.fault 0x1c010002),
          .error (.fault 0x000006f7), .ok []] := by
  obtain ⟨a, st, hbind, hresults, -⟩ := bind_then_callAll sampleService
    (.of { maxTransmit := 25, maxReceive := 0 }) 1 "echo" "echo" .new (by decide) (by decide)
    (by decide) [(2, [7, 8, 9]), (0, [1, 2]), (5, []), (1, [3]), (2, [])]
  exact ⟨a, st, hbind, hresults⟩

end RemoteCall.Client
