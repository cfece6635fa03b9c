/-! Values of parameter data. -/

namespace RemoteCall.Ndr

/-- A string. A terminated one is written with a final null unit that is no part of its value. -/
structure Text where
  value : String
  terminated : Bool
  deriving DecidableEq, Repr

def Text.ofString (s : String) : Text := ⟨s, true⟩

def Text.counted (s : String) : Text := ⟨s, false⟩

inductive Value
  | u8 (n : UInt8)
  | u16 (n : UInt16)
  | u32 (n : UInt32)
  | u64 (n : UInt64)
  | bytes (bs : List UInt8)
  | text (t : Text)
  | array (items : List Value)
  | record (members : List Value)
  | null
  /-- A pointer whose target follows the construct that holds it. -/
  | pointer (target : Value)
  /-- A pointer that was read but not yet bound to the target in that slot. -/
  | deferred (slot : Nat)
  /-- A pointer parameter: its target follows it at once. -/
  | unique (target : Value)
  /-- A construct of its own: what its pointers refer to follows it at once. -/
  | construct (inner : Value)
  /-- A level, written once or twice, and the pointer that belongs to it. -/
  | choice (twice : Bool) (level : UInt32) (arm : Value)
  deriving Inhabited

namespace Value

/-- An optional target as an embedded pointer. -/
def ofOption : Option Value → Value
  | none => null
  | some v => pointer v

/-- An optional target as a pointer parameter. -/
def ofParameter : Option Value → Value
  | none => null
  | some v => unique v

end Value

end RemoteCall.Ndr
