import RemoteCall.Pdu.Header
import RemoteCall.SyntaxId
/-! Reading the body of a protocol data unit: what lies between its header and its verifier.
Offsets count from the start of the unit. -/

namespace RemoteCall.Body

structure Cursor where
  order : ByteOrder
  position : Nat
  rest : List UInt8

abbrev Parse := StateT Cursor (Except Error)

/-- Before the first byte of the body. -/
def start (h : Header) (data : List UInt8) : Cursor where
  order := h.representation.order
  position := Header.size
  rest := (data.take (h.fragmentLength.toNat - h.authLength.toNat)).drop Header.size

/-- The bytes of a unit that follow its body. -/
def verifier (h : Header) (data : List UInt8) : List UInt8 :=
  (data.take h.fragmentLength.toNat).drop (h.fragmentLength.toNat - h.authLength.toNat)

def take (n : Nat) : Parse (List UInt8) := fun c =>
  match splitExact? n c.rest with
  | some (taken, rest) => .ok (taken, { c with rest, position := c.position + n })
  | none => .error (.malformedPdu c.position (.short n c.rest.length))

def skip (n : Nat) : Parse Unit := do
  let _ ← take n

def order : Parse ByteOrder := fun c => .ok (c.order, c)

def position : Parse Nat := fun c => .ok (c.position, c)

def atEnd : Parse Bool := fun c => .ok (c.rest.isEmpty, c)

def u8 : Parse UInt8 := do
  return UInt8.ofNat (ByteOrder.little.decode (← take 1))

def u16 : Parse UInt16 := do
  return (← order).read16 (← take 2)

def u32 : Parse UInt32 := do
  return (← order).read32 (← take 4)

def uuid : Parse Uuid := do
  return Uuid.decode (← order) (← take 16)

def syntaxId : Parse SyntaxId := do
  let u ← uuid
  return ⟨u, ← u32⟩

/-- All that is left of the body. -/
def remainder : Parse (List UInt8) := fun c =>
  .ok (c.rest, { c with rest := [], position := c.position + c.rest.length })

/-- Skips to a multiple of the alignment. -/
def align (alignment : Nat) : Parse Unit := do
  skip ((alignment - (← position) % alignment) % alignment)

def times {α : Type} (read : Parse α) : Nat → Parse (List α)
  | 0 => return []
  | n + 1 => do
    let a ← read
    let as ← times read n
    return a :: as

def run {α : Type} (p : Parse α) (h : Header) (data : List UInt8) : Except Error α := do
  let (a, _) ← StateT.run p (start h data)
  return a

end RemoteCall.Body
