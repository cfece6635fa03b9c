import RemoteCall.ByteOrder
import RemoteCall.Error
import RemoteCall.Ndr.Value
import RemoteCall.Text.Utf16
/-! Writing parameter data. The fixed part of a value comes first; the target of each embedded
pointer is a writer that waits until the construct is complete. Each target is a construct of its
own, so what it refers to comes before its next sibling. -/

namespace RemoteCall.Ndr

/-- Where a stream stands: its length, and the id of the next pointer that is not null. -/
structure Cursor where
  length : Nat
  nextId : UInt32
  deriving DecidableEq, Repr

def firstReferentId : UInt32 := 0x00020000

namespace Cursor

def start : Cursor := ⟨0, firstReferentId⟩

def padding (c : Cursor) (alignment : Nat) : Nat := (alignment - c.length % alignment) % alignment

/-- Ids go up in steps of four and start again at the first one. -/
def followingId (id : UInt32) : UInt32 :=
  let next := id + 4
  if next < firstReferentId then firstReferentId else next

end Cursor

/-- Writes at a place and tells where it stopped. -/
abbrev Writer := Cursor → Except Error (List UInt8 × Cursor)

/-- A fixed part: its bytes, the targets that wait, and where it stopped. -/
structure Part where
  bytes : List UInt8
  waiting : List Writer
  cursor : Cursor

abbrev PartWriter := Cursor → Except Error Part

/-- Bytes on the next multiple of the alignment. -/
def putAligned (alignment : Nat) (bs : List UInt8) (c : Cursor) : List UInt8 × Cursor :=
  let out := List.replicate (c.padding alignment) 0 ++ bs
  (out, { c with length := c.length + out.length })

def put (alignment : Nat) (bs : List UInt8) : PartWriter := fun c =>
  let (out, c) := putAligned alignment bs c
  .ok ⟨out, [], c⟩

def dword (n : UInt32) : List UInt8 := ByteOrder.little.word32 n

def countOf (n : Nat) : UInt32 := UInt32.ofNat n

/-- The id of a pointer that is not null. -/
def putReferentId (c : Cursor) : List UInt8 × Cursor :=
  let (out, after) := putAligned 4 (dword c.nextId) c
  (out, { after with nextId := Cursor.followingId c.nextId })

def PartWriter.append (first second : PartWriter) : PartWriter := fun c => do
  let a ← first c
  let b ← second a.cursor
  return ⟨a.bytes ++ b.bytes, a.waiting ++ b.waiting, b.cursor⟩

/-- Writers one after the other. -/
def sequence : List Writer → Writer
  | [], c => .ok ([], c)
  | w :: ws, c => do
    let (a, c) ← w c
    let (b, c) ← sequence ws c
    return (a ++ b, c)

/-- A complete construct: its fixed part, then what waits. -/
def complete (fixed : PartWriter) : Writer := fun c => do
  let part ← fixed c
  let (below, c) ← sequence part.waiting part.cursor
  return (part.bytes ++ below, c)

/-- A writer that leaves nothing waiting. -/
def Writer.part (w : Writer) : PartWriter := fun c => do
  let (out, c) ← w c
  return ⟨out, [], c⟩

/-- A pointer whose target waits. -/
def embed (target : PartWriter) : PartWriter := fun c =>
  let (out, c) := putReferentId c
  .ok ⟨out, [complete target], c⟩

/-- A pointer whose target follows at once. -/
def refer (target : PartWriter) : PartWriter := fun c => do
  let (out, c) := putReferentId c
  let (below, c) ← complete target c
  return ⟨out ++ below, [], c⟩

namespace Text

/-- The units of a string as they are written. -/
def units (t : Text) : List UInt16 :=
  Utf16.encode t.value.toList ++ (if t.terminated then [0] else [])

/-- Greatest count, offset, actual count, units. -/
def bytes (t : Text) : List UInt8 :=
  let count := dword (countOf t.units.length)
  count ++ dword 0 ++ count ++ t.units.flatMap ByteOrder.little.word16

end Text

namespace Value

mutual

/-- The fixed part of a value. -/
def fixed : Value → PartWriter
  | .u8 n => put 1 [n]
  | .u16 n => put 2 (ByteOrder.little.word16 n)
  | .u32 n => put 4 (dword n)
  | .u64 n => put 4 (ByteOrder.little.word64 n)
  | .bytes bs => put 1 bs
  | .text t => put 4 t.bytes
  | .array items => (put 4 (dword (countOf items.length))).append (fixedAll items)
  | .record members => fixedAll members
  | .null => put 4 (dword 0)
  | .pointer target => embed target.fixed
  | .deferred slot => fun _ => .error (.invalidState (.unboundPointer slot))
  | .unique target => refer target.fixed
  | .construct inner => (complete inner.fixed).part
  | .choice twice level arm =>
    (put 4 (dword level ++ (if twice then dword level else []))).append arm.fixed

def fixedAll : List Value → PartWriter
  | [] => put 1 []
  | v :: vs => v.fixed.append (fixedAll vs)

end

/-- The value as a construct. -/
def write (v : Value) : Writer := complete v.fixed

/-- The bytes of a value that stands alone. -/
def encode (v : Value) : Except Error (List UInt8) := do
  let (out, _) ← v.write .start
  return out

end Value

/-- A stream in the making. Targets that wait stay so until the stream is finished. -/
structure Encoder where
  bytes : List UInt8
  waiting : List Writer
  cursor : Cursor

namespace Encoder

def empty : Encoder := ⟨[], [], .start⟩

def length (e : Encoder) : Nat := e.bytes.length

def add (e : Encoder) (v : Value) : Except Error Encoder := do
  let part ← v.fixed e.cursor
  return ⟨e.bytes ++ part.bytes, e.waiting ++ part.waiting, part.cursor⟩

/-- The complete stream, with everything that still waits. -/
def finish (e : Encoder) : Except Error (List UInt8) := do
  let (below, _) ← sequence e.waiting e.cursor
  return e.bytes ++ below

end Encoder

end RemoteCall.Ndr
