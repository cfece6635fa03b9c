import RemoteCall.Ndr.Decoder
import RemoteCall.Ndr.Encoder
/-! Types that travel as parameter data, and the messages made of them. Each parameter of a message
is a construct of its own. -/

namespace RemoteCall.Ndr

class Marshal (α : Type) where
  layout : Layout
  toValue : α → Value
  ofValue? : Value → Option α

export Marshal (toValue ofValue?)

instance : Marshal UInt32 where
  layout := .u32
  toValue := .u32
  ofValue?
    | .u32 n => some n
    | _ => none

instance : Marshal Text where
  layout := .text
  toValue := .text
  ofValue?
    | .text t => some t
    | _ => none

instance {α : Type} [Marshal α] : Marshal (List α) where
  layout := .array (Marshal.layout α)
  toValue as := .array (as.map toValue)
  ofValue?
    | .array vs => vs.mapM ofValue?
    | _ => none

/-- An embedded pointer. -/
instance {α : Type} [Marshal α] : Marshal (Option α) where
  layout := .pointer (Marshal.layout α)
  toValue a := .ofOption (a.map toValue)
  ofValue?
    | .null => some none
    | .pointer v => (ofValue? v).map some
    | _ => none

/-- A value as a member of a type. What was read in its layout always is one. -/
def expect (α : Type) [Marshal α] (v : Value) : Read α :=
  match ofValue? v with
  | some a => return a
  | none => do fail (← get).position .shape

def readAs (α : Type) [Marshal α] : Read α := do
  expect α (← readConstruct .empty (Marshal.layout α))

/-- A pointer parameter. -/
def readOptional (α : Type) [Marshal α] : Read (Option α) := do
  match ← readUnique .empty (Marshal.layout α) with
  | none => return none
  | some v => return some (← expect α v)

/-- A parameter that is a construct. -/
def construct {α : Type} [Marshal α] (a : α) : Value := .construct (toValue a)

/-- A pointer parameter. -/
def optional {α : Type} [Marshal α] (a : Option α) : Value := .ofParameter (a.map toValue)

/-- The parameters of one direction of a call. -/
class Message (α : Type) where
  parameters : α → List Value
  read : Read α

namespace Message

def encode {α : Type} [Message α] (a : α) : Except Error (List UInt8) :=
  (Value.record (parameters a)).encode

/-- Reads the parameters from the start of the bytes. What follows them is left. -/
def decode (α : Type) [Message α] (data : List UInt8) : Except Error α :=
  match (read : Read α) (.ofBytes data) with
  | .ok a _ => .ok a
  | .error e _ => .error e

end Message

end RemoteCall.Ndr
