import RemoteCall.ByteOrder
import RemoteCall.Error
/-! The format label: how the sender of a unit writes integers, characters and floats. -/

namespace RemoteCall

inductive CharacterFormat
  | ascii
  | ebcdic
  deriving DecidableEq, Repr

inductive FloatFormat
  | ieee
  | vax
  | cray
  | ibm
  deriving DecidableEq, Repr

structure Label where
  integers : ByteOrder
  characters : CharacterFormat
  floats : FloatFormat
  deriving DecidableEq, Repr

/-- The four bytes of a header that hold the label. The last two are reserved. -/
structure Representation where
  formats : UInt8
  floats : UInt8
  reserved₁ : UInt8
  reserved₂ : UInt8
  deriving DecidableEq, Repr

namespace Representation

/-- Little-endian integers, ASCII, IEEE. -/
def standard : Representation := ⟨0x10, 0, 0, 0⟩

def bytes (r : Representation) : List UInt8 := [r.formats, r.floats, r.reserved₁, r.reserved₂]

def isLittle (r : Representation) : Bool := r.formats.toNat / 16 == 1

/-- The byte order of all words of a unit. -/
def order (r : Representation) : ByteOrder := if r.isLittle then .little else .big

end Representation

def ByteOrder.ofCode? : Nat → Option ByteOrder
  | 0 => some .big
  | 1 => some .little
  | _ => none

def ByteOrder.code : ByteOrder → Nat
  | .big => 0
  | .little => 1

def ByteOrder.name : ByteOrder → String
  | .big => "BigEndian"
  | .little => "LittleEndian"

def CharacterFormat.ofCode? : Nat → Option CharacterFormat
  | 0 => some .ascii
  | 1 => some .ebcdic
  | _ => none

def CharacterFormat.code : CharacterFormat → Nat
  | .ascii => 0
  | .ebcdic => 1

def CharacterFormat.name : CharacterFormat → String
  | .ascii => "ASCII"
  | .ebcdic => "EBCDIC"

def FloatFormat.ofCode? : Nat → Option FloatFormat
  | 0 => some .ieee
  | 1 => some .vax
  | 2 => some .cray
  | 3 => some .ibm
  | _ => none

def FloatFormat.code : FloatFormat → Nat
  | .ieee => 0
  | .vax => 1
  | .cray => 2
  | .ibm => 3

def FloatFormat.name : FloatFormat → String
  | .ieee => "IEEE"
  | .vax => "VAX"
  | .cray => "Cray"
  | .ibm => "IBM"

namespace Label

def standard : Label := ⟨.little, .ascii, .ieee⟩

def representation (l : Label) : Representation :=
  ⟨UInt8.ofNat (16 * l.integers.code + l.characters.code), UInt8.ofNat l.floats.code, 0, 0⟩

/-- Reads the label of a header; the offsets are those of its bytes in the header. -/
def ofRepresentation (r : Representation) : Except Error Label :=
  let high := r.formats.toNat / 16
  let low := r.formats.toNat % 16
  match ByteOrder.ofCode? high with
  | none => .error (.malformedPdu 4 (.integerRepresentation high))
  | some integers =>
    match CharacterFormat.ofCode? low with
    | none => .error (.malformedPdu 4 (.characterRepresentation low))
    | some characters =>
      match FloatFormat.ofCode? r.floats.toNat with
      | none => .error (.malformedPdu 5 (.floatRepresentation r.floats.toNat))
      | some floats => .ok ⟨integers, characters, floats⟩

end Label

end RemoteCall
