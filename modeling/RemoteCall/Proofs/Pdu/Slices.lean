import RemoteCall.Proofs.Pdu.Rewriting

/-! Reading units by index. The bytes stay where they are, and each access names its place or its
range in a buffer. Where there is no such place or range, or where a length would be below zero,
there is no result at all, not even an error. Read in this way a unit has a result in any case, the
one of `Pdu.decode` (`Slices.decode_eq`): no access is ever out of range. -/

namespace RemoteCall.Slices

/-! ## Ranges -/

/-- The bytes of a range, if the buffer has such a range. -/
def slice? (buffer : List UInt8) (lo hi : Nat) : Option (List UInt8) :=
  if lo ≤ hi ∧ hi ≤ buffer.length then some ((buffer.drop lo).take (hi - lo)) else none

/-- The difference of two lengths, if it is not below zero. -/
def minus? (n m : Nat) : Option Nat := if m ≤ n then some (n - m) else none

theorem slice?_of_le {buffer : List UInt8} {lo hi : Nat} (hlo : lo ≤ hi)
    (hhi : hi ≤ buffer.length) :
    slice? buffer lo hi = some ((buffer.drop lo).take (hi - lo)) := if_pos ⟨hlo, hhi⟩

theorem minus?_of_le {n m : Nat} (h : m ≤ n) : minus? n m = some (n - m) := if_pos h

theorem slice?_self {bs : List UInt8} {n : Nat} (h : bs.length = n) : slice? bs 0 n = some bs := by
  rw [slice?_of_le (Nat.zero_le n) (Nat.le_of_eq h.symm), List.drop_zero, Nat.sub_zero, ← h,
    List.take_length]

/-- A result or an error; or neither, after an access out of range. -/
abbrev Checked := ExceptT Error Option

namespace Checked

/-- What was accessed. -/
def access {α : Type} (x : Option α) : Checked α := ExceptT.mk (x.map .ok)

def ofExcept {α : Type} (x : Except Error α) : Checked α := ExceptT.mk (some x)

end Checked

/-! ## Readers -/

/-- A reader of a buffer. -/
structure Reader where
  order : ByteOrder
  buffer : List UInt8
  position : Nat

def Reader.remaining (r : Reader) : Nat := r.buffer.length - r.position

abbrev Scan := StateT Reader Checked

namespace Scan

def access {α : Type} (x : Option α) : Scan α := fun r => do
  return (← Checked.access x, r)

def take (n : Nat) : Scan (List UInt8) := fun r =>
  if r.remaining < n then throw (.malformedPdu r.position (.short n r.remaining))
  else do
    let bs ← Checked.access (slice? r.buffer r.position (r.position + n))
    return (bs, { r with position := r.position + n })

def skip (n : Nat) : Scan Unit := do
  let _ ← take n

def order : Scan ByteOrder := fun r => pure (r.order, r)

def position : Scan Nat := fun r => pure (r.position, r)

def atEnd : Scan Bool := fun r => pure (r.remaining == 0, r)

def u8 : Scan UInt8 := do
  let bs ← take 1
  access bs[0]?

/-- A field of fixed width. -/
def ordered {α : Type} (decode : ByteOrder → List UInt8 → α) (n : Nat) : Scan α := do
  let o ← order
  let bs ← take n
  return decode o (← access (slice? bs 0 n))

def u16 : Scan UInt16 := ordered ByteOrder.read16 2

def u32 : Scan UInt32 := ordered ByteOrder.read32 4

def uuid : Scan Uuid := ordered Uuid.decode 16

def syntaxId : Scan SyntaxId := do
  let u ← uuid
  return ⟨u, ← u32⟩

def remainder : Scan (List UInt8) := fun r => do
  let bs ← Checked.access (slice? r.buffer (min r.position r.buffer.length) r.buffer.length)
  return (bs, { r with position := r.buffer.length })

def align (alignment : Nat) : Scan Unit := do
  skip ((alignment - (← position) % alignment) % alignment)

def times {α : Type} (scan : Scan α) : Nat → Scan (List α)
  | 0 => return []
  | n + 1 => do
    let a ← scan
    let as ← times scan n
    return a :: as

end Scan

/-! ## Units -/

open Scan

def representation? : List UInt8 → Option Representation
  | [formats, floats, reserved₁, reserved₂] => some ⟨formats, floats, reserved₁, reserved₂⟩
  | _ => none

/-- The two lengths of a header, and its call. -/
def lengths : Scan (UInt16 × UInt16 × UInt32) := do
  skip 8
  let fragmentLength ← u16
  let authLength ← u16
  return (fragmentLength, authLength, ← u32)

def header (data : List UInt8) : Checked Header := do
  if data.length < Header.size then
    throw (.malformedPdu data.length (.headerShort data.length))
  let label ← Checked.access (slice? data 4 8)
  let representation ← Checked.access (representation? label)
  let l ← Checked.ofExcept (Label.ofRepresentation representation)
  let ((fragmentLength, authLength, callId), _) ← lengths ⟨l.integers, data, 0⟩
  let major ← Checked.access data[0]?
  let minor ← Checked.access data[1]?
  let tag ← Checked.access data[2]?
  match PacketKind.ofTag? tag with
  | none => throw (.unknownPacketKind tag)
  | some kind =>
    let flags ← Checked.access data[3]?
    if fragmentLength.toNat < Header.size then
      throw (.malformedPdu 8 (.fragmentBelowHeader fragmentLength.toNat))
    if fragmentLength.toNat > data.length then
      throw (.malformedPdu 8 (.fragmentBeyondBuffer fragmentLength.toNat data.length))
    if Header.size + authLength.toNat > fragmentLength.toNat then
      throw (.malformedPdu 10 (.authBeyondFragment authLength.toNat fragmentLength.toNat))
    return ⟨major, minor, kind, ⟨flags⟩, representation, fragmentLength, authLength, callId⟩

/-- A reader of the fragment without its verifier, behind the header. -/
def body (h : Header) (data : List UInt8) : Checked Reader := do
  let last ← Checked.access (minus? h.fragmentLength.toNat h.authLength.toNat)
  return ⟨h.representation.order, ← Checked.access (slice? data 0 last), Header.size⟩

def verifier (h : Header) (data : List UInt8) : Checked (List UInt8) := do
  let first ← Checked.access (minus? h.fragmentLength.toNat h.authLength.toNat)
  Checked.access (slice? data first h.fragmentLength.toNat)

/-- A unit of one of the given kinds. -/
def unit {α : Type} (kinds : List PacketKind) (scan : Header → List UInt8 → Scan α)
    (data : List UInt8) : Checked α := do
  let h ← header data
  if !kinds.contains h.kind then
    throw (.malformedPdu 2 (.unexpectedKind h.kind))
  let r ← body h data
  let auth ← verifier h data
  let (a, _) ← scan h auth r
  return a

def context : Scan Context := do
  let id ← u16
  let count ← u8
  skip 1
  let abstractSyntax ← syntaxId
  return ⟨id, abstractSyntax, ← times syntaxId count.toNat⟩

def proposal (h : Header) (auth : List UInt8) : Scan Proposal := do
  let maxTransmit ← u16
  let maxReceive ← u16
  let group ← u32
  let count ← u8
  skip 3
  return ⟨h, maxTransmit, maxReceive, group, ← times context count.toNat, auth⟩

def contextAnswer : Scan ContextAnswer := do
  let result ← u16
  let reason ← u16
  return ⟨result, reason, ← syntaxId⟩

def acknowledgement (h : Header) (auth : List UInt8) : Scan Acknowledgement := do
  let maxTransmit ← u16
  let maxReceive ← u16
  let group ← u32
  let offset ← position
  let length ← u16
  let bs ← take length.toNat
  match Acknowledgement.addressOf? bs with
  | none => throw (.malformedPdu offset .addressEncoding)
  | some address =>
    align 4
    let count ← u8
    skip 3
    let answers ← times contextAnswer count.toNat
    return ⟨h, maxTransmit, maxReceive, group, address, answers, auth⟩

def version : Scan (UInt8 × UInt8) := do
  let major ← u8
  return (major, ← u8)

def refusal (h : Header) : Scan Refusal := do
  let reason ← u16
  let count ← if ← atEnd then pure 0 else u8
  return ⟨h, reason, ← times version count.toNat⟩

def request (h : Header) (auth : List UInt8) : Scan Request := do
  let allocHint ← u32
  let contextId ← u16
  let opnum ← u16
  let object ← if h.flags.hasObject then some <$> uuid else pure none
  return ⟨h, allocHint, contextId, opnum, object, ← remainder, auth⟩

def response (h : Header) (auth : List UInt8) : Scan Response := do
  let allocHint ← u32
  let contextId ← u16
  let cancelCount ← u8
  skip 1
  return ⟨h, allocHint, contextId, cancelCount, ← remainder, auth⟩

def fault (h : Header) (auth : List UInt8) : Scan Fault := do
  let allocHint ← u32
  let contextId ← u16
  let cancelCount ← u8
  skip 1
  let status ← u32
  skip 4
  return ⟨h, allocHint, contextId, cancelCount, status, auth⟩

def decode (data : List UInt8) : Checked Pdu := do
  let h ← header data
  match h.kind with
  | .bind => return .bind (← unit [.bind, .alterContext] proposal data)
  | .alterContext => return .alterContext (← unit [.bind, .alterContext] proposal data)
  | .bindAck => return .bindAck (← unit [.bindAck, .alterContextResponse] acknowledgement data)
  | .alterContextResponse =>
    return .alterContextResponse (← unit [.bindAck, .alterContextResponse] acknowledgement data)
  | .bindNak => return .bindNak (← unit [.bindNak] (fun h _ => refusal h) data)
  | .request => return .request (← unit [.request] request data)
  | .response => return .response (← unit [.response] response data)
  | .fault => return .fault (← unit [.fault] fault data)
  | .auth3 | .shutdown | .cancelRequest | .orphaned =>
    return .other h (← Checked.access (slice? data Header.size h.fragmentLength.toNat))

/-! ## Readers stay in their buffers -/

theorem bind_of_eq_pure {α β : Type} {scan : Scan α} {next : α → Scan β} {r r' : Reader} {a : α}
    (h : scan r = pure (a, r')) : (scan >>= next) r = next a r' := by
  change (scan r >>= fun x => next x.1 x.2) = _
  rw [h, pure_bind]

/-- The range that is taken is within the buffer, if there is enough behind the position. -/
theorem take_of_le {n : Nat} {r : Reader} (h : r.position + n ≤ r.buffer.length) :
    Scan.take n r =
      pure ((r.buffer.drop r.position).take n, { r with position := r.position + n }) := by
  have henough : ¬ r.remaining < n := by
    unfold Reader.remaining
    omega
  unfold Scan.take
  rw [if_neg henough, slice?_of_le (Nat.le_add_right _ _) h, Nat.add_sub_cancel_left]
  rfl

theorem ordered_of_le {α : Type} (decode : ByteOrder → List UInt8 → α) {n : Nat} {r : Reader}
    (h : r.position + n ≤ r.buffer.length) :
    Scan.ordered decode n r =
      pure (decode r.order ((r.buffer.drop r.position).take n),
        { r with position := r.position + n }) := by
  have hlength : ((r.buffer.drop r.position).take n).length = n := by
    rw [List.length_take, List.length_drop]
    omega
  have horder : Scan.order r = pure (r.order, r) := rfl
  unfold Scan.ordered
  rw [bind_of_eq_pure horder, bind_of_eq_pure (take_of_le h), slice?_self hlength]
  rfl

/-- The reader is where the cursor is, within its buffer. -/
structure Reader.At (r : Reader) (c : Body.Cursor) : Prop where
  order : r.order = c.order
  position : r.position = c.position
  within : r.position ≤ r.buffer.length
  rest : r.buffer.drop r.position = c.rest

theorem Reader.At.remaining {r : Reader} {c : Body.Cursor} (h : r.At c) :
    r.remaining = c.rest.length := by
  rw [← h.rest, List.length_drop, Reader.remaining]

/-- From the same place both go to the same place, and give the same value or the same error. -/
def Agrees {α : Type} (scan : Scan α) (p : Body.Parse α) : Prop :=
  ∀ r c, r.At c → match p c with
    | .ok (a, c') => ∃ r', scan r = pure (a, r') ∧ r'.At c'
    | .error e => scan r = throw e

section Agrees

variable {α β : Type} {scan : Scan α} {p : Body.Parse α}

theorem agrees_pure (a : α) : Agrees (pure a : Scan α) (pure a) := fun r _ h => ⟨r, rfl, h⟩

theorem agrees_throw (e : Error) : Agrees (throw e : Scan α) (throw e) := fun _ _ _ => rfl

theorem Agrees.bind_of {P : α → Prop} {next : α → Scan β} {f : α → Body.Parse β}
    (h : Agrees scan p) (hp : Body.Ensures p P) (hnext : ∀ a, P a → Agrees (next a) (f a)) :
    Agrees (scan >>= next) (p >>= f) := by
  intro r c hr
  have hstep := h r c hr
  change match (p c >>= fun x => f x.1 x.2) with
    | .ok (b, c') => ∃ r', (scan r >>= fun x => next x.1 x.2) = pure (b, r') ∧ r'.At c'
    | .error e => (scan r >>= fun x => next x.1 x.2) = throw e
  cases hc : p c with
  | error e =>
    rw [hc] at hstep
    rw [hstep]
    rfl
  | ok x =>
    rw [hc] at hstep
    obtain ⟨r', hscan, hr'⟩ := hstep
    rw [hscan, pure_bind]
    exact hnext x.1 (hp c x.1 x.2 hc) r' x.2 hr'

theorem Agrees.bind {next : α → Scan β} {f : α → Body.Parse β} (h : Agrees scan p)
    (hnext : ∀ a, Agrees (next a) (f a)) : Agrees (scan >>= next) (p >>= f) :=
  h.bind_of (P := fun _ => True) (fun _ _ _ _ => trivial) fun a _ => hnext a

theorem Agrees.map (k : α → β) (h : Agrees scan p) : Agrees (k <$> scan) (k <$> p) := by
  rw [map_eq_pure_bind, map_eq_pure_bind]
  exact h.bind fun a => agrees_pure (k a)

end Agrees

section Fields

variable {α β : Type}

/-- What is taken was looked at before. -/
theorem agrees_take (n : Nat) : Agrees (Scan.take n) (Body.take n) := by
  intro r c hr
  have hremaining := hr.remaining
  have hwithin := hr.within
  unfold Body.take
  rw [splitExact?_eq]
  by_cases hn : n ≤ c.rest.length
  · have henough : r.position + n ≤ r.buffer.length := by
      unfold Reader.remaining at hremaining
      omega
    rw [if_pos hn, take_of_le henough, hr.rest]
    refine ⟨{ r with position := r.position + n }, rfl, hr.order, ?_, henough, ?_⟩
    · exact congrArg (· + n) hr.position
    · dsimp only
      rw [← List.drop_drop, hr.rest]
  · have hshort : r.remaining < n := by omega
    unfold Scan.take
    rw [if_neg hn, if_pos hshort, hremaining, hr.position]

theorem agrees_skip (n : Nat) : Agrees (Scan.skip n) (Body.skip n) :=
  (agrees_take n).bind fun _ => agrees_pure ()

theorem ensures_take (n : Nat) : Body.Ensures (Body.take n) fun bs => bs.length = n := by
  intro c bs c' h
  exact (Body.take_eq_ok h).1

theorem agrees_u8 : Agrees Scan.u8 Body.u8 := by
  refine (agrees_take 1).bind_of (ensures_take 1) fun bs hbs => ?_
  obtain ⟨b, rfl⟩ := List.length_eq_one_iff.mp hbs
  have hb : UInt8.ofNat (ByteOrder.little.decode [b]) = b := by
    simp [ByteOrder.decode, ByteOrder.arrange, ofDigits]
  rw [hb]
  exact agrees_pure b

theorem agrees_order : Agrees Scan.order Body.order := by
  intro r c hr
  exact ⟨r, by rw [Scan.order, hr.order], hr⟩

theorem agrees_position : Agrees Scan.position Body.position := by
  intro r c hr
  exact ⟨r, by rw [Scan.position, hr.position], hr⟩

theorem agrees_atEnd : Agrees Scan.atEnd Body.atEnd := by
  intro r c hr
  refine ⟨r, ?_, hr⟩
  rw [Scan.atEnd, hr.remaining]
  cases c.rest <;> rfl

theorem agrees_remainder : Agrees Scan.remainder Body.remainder := by
  intro r c hr
  have hremaining := hr.remaining
  unfold Reader.remaining at hremaining
  have hwithin := hr.within
  have hslice : slice? r.buffer (min r.position r.buffer.length) r.buffer.length =
      some c.rest := by
    rw [Nat.min_eq_left hwithin, slice?_of_le hwithin (Nat.le_refl _), hr.rest, hremaining,
      List.take_length]
  unfold Scan.remainder
  rw [hslice]
  refine ⟨{ r with position := r.buffer.length }, rfl, hr.order, ?_, Nat.le_refl _, ?_⟩
  · dsimp only
    rw [← hr.position]
    omega
  · exact List.drop_length

theorem agrees_ordered (decode : ByteOrder → List UInt8 → α) (n : Nat) :
    Agrees (Scan.ordered decode n) (do return decode (← Body.order) (← Body.take n)) := by
  refine agrees_order.bind fun o => (agrees_take n).bind_of (ensures_take n) fun bs hbs => ?_
  rw [slice?_self hbs]
  exact agrees_pure (decode o bs)

theorem agrees_u16 : Agrees Scan.u16 Body.u16 := agrees_ordered ByteOrder.read16 2

theorem agrees_u32 : Agrees Scan.u32 Body.u32 := agrees_ordered ByteOrder.read32 4

theorem agrees_uuid : Agrees Scan.uuid Body.uuid := agrees_ordered Uuid.decode 16

theorem agrees_syntaxId : Agrees Scan.syntaxId Body.syntaxId :=
  agrees_uuid.bind fun _ => agrees_u32.bind fun _ => agrees_pure _

theorem agrees_align (alignment : Nat) : Agrees (Scan.align alignment) (Body.align alignment) :=
  agrees_position.bind fun _ => agrees_skip _

theorem Agrees.times {scan : Scan α} {p : Body.Parse α} (h : Agrees scan p) (n : Nat) :
    Agrees (Scan.times scan n) (Body.times p n) := by
  induction n with
  | zero => exact agrees_pure []
  | succ n ih => exact h.bind fun _ => ih.bind fun _ => agrees_pure _

end Fields

/-! ## Bodies -/

theorem agrees_context : Agrees context Context.parse :=
  agrees_u16.bind fun _ => agrees_u8.bind fun _ => (agrees_skip 1).bind fun _ =>
    agrees_syntaxId.bind fun _ => (agrees_syntaxId.times _).bind fun _ => agrees_pure _

section Bodies

variable (h : Header) (auth : List UInt8)

theorem agrees_proposal : Agrees (proposal h auth) (Proposal.parse h auth) :=
  agrees_u16.bind fun _ => agrees_u16.bind fun _ => agrees_u32.bind fun _ =>
    agrees_u8.bind fun _ => (agrees_skip 3).bind fun _ =>
      (agrees_context.times _).bind fun _ => agrees_pure _

theorem agrees_contextAnswer : Agrees contextAnswer ContextAnswer.parse :=
  agrees_u16.bind fun _ => agrees_u16.bind fun _ => agrees_syntaxId.bind fun _ => agrees_pure _

theorem agrees_acknowledgement :
    Agrees (acknowledgement h auth) (Acknowledgement.parse h auth) := by
  refine agrees_u16.bind fun _ => agrees_u16.bind fun _ => agrees_u32.bind fun _ =>
    agrees_position.bind fun offset => agrees_u16.bind fun _ => (agrees_take _).bind fun bs => ?_
  cases Acknowledgement.addressOf? bs with
  | none => exact agrees_throw _
  | some address =>
    exact (agrees_align 4).bind fun _ => agrees_u8.bind fun _ => (agrees_skip 3).bind fun _ =>
      (agrees_contextAnswer.times _).bind fun _ => agrees_pure _

theorem agrees_refusal : Agrees (refusal h) (Refusal.parse h) := by
  have hversion : Agrees version (do
      let major ← Body.u8
      return (major, ← Body.u8)) :=
    agrees_u8.bind fun _ => agrees_u8.bind fun _ => agrees_pure _
  refine agrees_u16.bind fun reason => agrees_atEnd.bind fun ended => ?_
  cases ended with
  | true => exact (agrees_pure 0).bind fun count => (hversion.times _).bind fun _ => agrees_pure _
  | false => exact agrees_u8.bind fun count => (hversion.times _).bind fun _ => agrees_pure _

theorem agrees_request : Agrees (request h auth) (Request.parse h auth) := by
  refine agrees_u32.bind fun _ => agrees_u16.bind fun _ => agrees_u16.bind fun _ => ?_
  dsimp only
  split
  · exact (agrees_uuid.map some).bind fun _ => agrees_remainder.bind fun _ => agrees_pure _
  · exact (agrees_pure none).bind fun _ => agrees_remainder.bind fun _ => agrees_pure _

theorem agrees_response : Agrees (response h auth) (Response.parse h auth) :=
  agrees_u32.bind fun _ => agrees_u16.bind fun _ => agrees_u8.bind fun _ =>
    (agrees_skip 1).bind fun _ => agrees_remainder.bind fun _ => agrees_pure _

theorem agrees_fault : Agrees (fault h auth) (Fault.parse h auth) :=
  agrees_u32.bind fun _ => agrees_u16.bind fun _ => agrees_u8.bind fun _ =>
    (agrees_skip 1).bind fun _ => agrees_u32.bind fun _ => (agrees_skip 4).bind fun _ =>
      agrees_pure _

end Bodies

/-! ## Headers -/

theorem lengths_eq (o : ByteOrder) {data : List UInt8} (h : Header.size ≤ data.length) :
    lengths ⟨o, data, 0⟩ = pure ((Header.announced o data, Header.announcedAuth o data,
      o.read32 ((data.drop 12).take 4)), ⟨o, data, 16⟩) := by
  have hsize : Header.size = 16 := rfl
  have hskip : Scan.skip 8 ⟨o, data, 0⟩ = pure ((), ⟨o, data, 8⟩) :=
    bind_of_eq_pure (take_of_le (by dsimp only; omega))
  have hfragment : Scan.u16 ⟨o, data, 8⟩ = pure (Header.announced o data, ⟨o, data, 10⟩) :=
    ordered_of_le ByteOrder.read16 (by dsimp only; omega)
  have hauth : Scan.u16 ⟨o, data, 10⟩ = pure (Header.announcedAuth o data, ⟨o, data, 12⟩) :=
    ordered_of_le ByteOrder.read16 (by dsimp only; omega)
  have hcall : Scan.u32 ⟨o, data, 12⟩ =
      pure (o.read32 ((data.drop 12).take 4), ⟨o, data, 16⟩) :=
    ordered_of_le ByteOrder.read32 (by dsimp only; omega)
  unfold lengths
  rw [bind_of_eq_pure hskip, bind_of_eq_pure hfragment, bind_of_eq_pure hauth,
    bind_of_eq_pure hcall]
  rfl

theorem getElem?_eq_getD {data : List UInt8} {i : Nat} (h : i < data.length) :
    data[i]? = some (data.getD i 0) := by
  rw [List.getD_eq_getElem?_getD, List.getElem?_eq_getElem h, Option.getD_some]

theorem representation?_eq {data : List UInt8} (h : Header.size ≤ data.length) :
    representation? ((data.drop 4).take 4) = some (Header.representationOf data) := by
  have hsize : Header.size = 16 := rfl
  rw [take_four (by rw [List.length_drop]; omega)]
  simp [Header.representationOf, representation?, List.getD_eq_getElem?_getD]

/-- What is there is accessed. -/
theorem Checked.access_some {α : Type} (a : α) : access (some a) = pure a := rfl

theorem Checked.ofExcept_ok {α : Type} (a : α) : ofExcept (.ok a) = pure a := rfl

/-- A check that both make. -/
theorem Checked.ofExcept_guarded {α : Type} {p : Prop} [Decidable p] {e : Error} {x : Checked α}
    {y : Except Error α} (h : ¬ p → x = ofExcept y) :
    (do if p then throw e else pure (); x) =
      ofExcept (do if p then throw e else pure (); y) := by
  split
  · rfl
  · exact h ‹_›

theorem header_eq (data : List UInt8) : header data = Checked.ofExcept (Header.parse data) := by
  refine Checked.ofExcept_guarded fun hshort => ?_
  have hsize : Header.size = 16 := rfl
  have hlong : Header.size ≤ data.length := Nat.le_of_not_lt hshort
  rw [slice?_of_le (by decide) (by omega), Checked.access_some, pure_bind,
    representation?_eq hlong, Checked.access_some, pure_bind]
  cases Label.ofRepresentation (Header.representationOf data) with
  | error e => rfl
  | ok l =>
    change (lengths ⟨l.integers, data, 0⟩ >>= _) = _
    rw [lengths_eq _ hlong, pure_bind, getElem?_eq_getD (show 0 < data.length by omega),
      getElem?_eq_getD (show 1 < data.length by omega),
      getElem?_eq_getD (show 2 < data.length by omega),
      getElem?_eq_getD (show 3 < data.length by omega)]
    simp only [Checked.access_some, pure_bind]
    rw [ok_bind]
    cases PacketKind.ofTag? (data.getD 2 0) with
    | none => rfl
    | some kind =>
      exact Checked.ofExcept_guarded fun _ => Checked.ofExcept_guarded fun _ =>
        Checked.ofExcept_guarded fun _ => rfl

/-! ## Units -/

section Units

variable {data : List UInt8} {h : Header}

/-- The lengths of a header that was parsed leave room for the header, and fit the bytes. -/
theorem body_eq (hparse : Header.parse data = .ok h) :
    body h data = pure ⟨h.representation.order,
      data.take (h.fragmentLength.toNat - h.authLength.toNat), Header.size⟩ := by
  obtain ⟨-, -, hwithin, hlengths⟩ := Header.atFront_of_parse hparse
  unfold body
  rw [minus?_of_le (by omega), Checked.access_some, pure_bind,
    slice?_of_le (Nat.zero_le _) (by omega), Nat.sub_zero, List.drop_zero]
  rfl

theorem verifier_eq (hparse : Header.parse data = .ok h) :
    verifier h data = pure (Body.verifier h data) := by
  obtain ⟨-, -, hwithin, hlengths⟩ := Header.atFront_of_parse hparse
  unfold verifier Body.verifier
  rw [minus?_of_le (by omega), Checked.access_some, pure_bind,
    slice?_of_le (Nat.sub_le ..) hwithin, List.drop_take]
  rfl

theorem Reader.at_start (hparse : Header.parse data = .ok h) :
    (Reader.mk h.representation.order (data.take (h.fragmentLength.toNat - h.authLength.toNat))
      Header.size).At (Body.start h data) := by
  obtain ⟨-, -, hwithin, hlengths⟩ := Header.atFront_of_parse hparse
  refine ⟨rfl, rfl, ?_, rfl⟩
  dsimp only
  rw [List.length_take]
  omega

/-- A unit whose body is read alike is read alike. -/
theorem unit_eq {α : Type} {scan : Header → List UInt8 → Scan α}
    {p : Header → List UInt8 → Body.Parse α} (hp : ∀ h auth, Agrees (scan h auth) (p h auth))
    (kinds : List PacketKind) (data : List UInt8) :
    unit kinds scan data = Checked.ofExcept (Header.expect kinds data >>= fun h =>
      Body.run (p h (Body.verifier h data)) h data) := by
  unfold unit Header.expect
  rw [header_eq]
  cases hparse : Header.parse data with
  | error e => rfl
  | ok h =>
    rw [Checked.ofExcept_ok, pure_bind, ok_bind]
    cases hkind : kinds.contains h.kind with
    | false => rfl
    | true =>
      have hbody := hp h (Body.verifier h data) _ _ (Reader.at_start hparse)
      rw [if_pos rfl, body_eq hparse, verifier_eq hparse]
      change (scan h (Body.verifier h data) _ >>= fun x => pure x.1) =
        Checked.ofExcept (p h (Body.verifier h data) (Body.start h data) >>= fun x => pure x.1)
      cases hstart : p h (Body.verifier h data) (Body.start h data) with
      | error e =>
        rw [hstart] at hbody
        rw [hbody]
        rfl
      | ok x =>
        rw [hstart] at hbody
        obtain ⟨r', hscan, -⟩ := hbody
        rw [hscan]
        rfl

/-- **No access is out of range.** Whatever bytes a unit is read from by index, there is a result,
the one of `Pdu.decode`. -/
theorem decode_eq (data : List UInt8) : decode data = Checked.ofExcept (Pdu.decode data) := by
  have hunit : ∀ {α : Type} {x : Checked α} {y : Except Error α} (mk : α → Pdu),
      x = Checked.ofExcept y → (do return mk (← x)) = Checked.ofExcept (do return mk (← y)) := by
    rintro α _ y mk rfl
    cases y <;> rfl
  unfold decode Pdu.decode
  rw [header_eq]
  cases hparse : Header.parse data with
  | error e => rfl
  | ok h =>
    obtain ⟨-, -, hwithin, hlengths⟩ := Header.atFront_of_parse hparse
    rw [Checked.ofExcept_ok, pure_bind, ok_bind]
    cases h.kind with
    | bind => exact hunit Pdu.bind (unit_eq agrees_proposal _ data)
    | alterContext => exact hunit Pdu.alterContext (unit_eq agrees_proposal _ data)
    | bindAck => exact hunit Pdu.bindAck (unit_eq agrees_acknowledgement _ data)
    | alterContextResponse =>
      exact hunit Pdu.alterContextResponse (unit_eq agrees_acknowledgement _ data)
    | bindNak => exact hunit Pdu.bindNak (unit_eq (fun h _ => agrees_refusal h) _ data)
    | request => exact hunit Pdu.request (unit_eq agrees_request _ data)
    | response => exact hunit Pdu.response (unit_eq agrees_response _ data)
    | fault => exact hunit Pdu.fault (unit_eq agrees_fault _ data)
    | auth3 | shutdown | cancelRequest | orphaned =>
      dsimp only
      rw [slice?_of_le (by omega) hwithin, List.drop_take]
      rfl

end Units

end RemoteCall.Slices
