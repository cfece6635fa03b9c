import RemoteCall.Error
import RemoteCall.Pdu.Unit
/-! A payload cut into the units that carry it. Only the first unit has the first-fragment flag and
only the last one the last-fragment flag; the hint of each tells how many bytes of the payload are
still to come, its own included. -/

namespace RemoteCall

/-- How many bytes of a payload fit into a unit of at most `maxFragment` bytes, when `fixed` bytes
stand between its header and the payload. -/
def roomFor (maxFragment : UInt16) (fixed : Nat) : Except Error Nat :=
  let overhead := Header.size + fixed
  if maxFragment.toNat ≤ overhead then
    .error (.invalidParameter (.noRoom maxFragment.toNat overhead))
  else .ok (maxFragment.toNat - overhead)

/-- A slice of a payload. -/
structure Slice where
  isFirst : Bool
  isLast : Bool
  remaining : Nat
  data : List UInt8
  deriving DecidableEq, Repr

namespace Slice

def flags (s : Slice) : Flags :=
  (if s.isFirst then Flags.firstFragment else Flags.empty).union
    (if s.isLast then Flags.lastFragment else Flags.empty)

def allocHint (s : Slice) : UInt32 := UInt32.ofNat s.remaining

end Slice

/-- Slices of `room` bytes; the last one may be shorter. An empty payload is one empty slice. -/
def slices (room : Nat) (isFirst : Bool) (payload : List UInt8) : List Slice :=
  if _h : payload.length ≤ room ∨ room = 0 then [⟨isFirst, true, payload.length, payload⟩]
  else
    ⟨isFirst, false, payload.length, payload.take room⟩ :: slices room false (payload.drop room)
termination_by payload.length
decreasing_by simp only [List.length_drop]; omega

namespace Response

def ofSlice (callId : UInt32) (contextId : UInt16) (s : Slice) : Response :=
  let r := Response.of callId contextId s.data
  { r with header := { r.header with flags := s.flags }, allocHint := s.allocHint }

def fragments (callId : UInt32) (contextId : UInt16) (payload : List UInt8) (maxFragment : UInt16) :
    Except Error (List Response) := do
  let room ← roomFor maxFragment fixedLength
  return (slices room true payload).map (ofSlice callId contextId)

end Response

namespace Request

def ofSlice (callId : UInt32) (contextId opnum : UInt16) (object : Option Uuid) (s : Slice) : Request :=
  let plain := Request.of callId contextId opnum s.data
  let r := match object with
    | some u => plain.withObject u
    | none => plain
  let flags := if object.isSome then s.flags.union .objectUuid else s.flags
  { r with header := { r.header with flags }, allocHint := s.allocHint }

def fragments (callId : UInt32) (contextId opnum : UInt16) (object : Option Uuid)
    (payload : List UInt8) (maxFragment : UInt16) : Except Error (List Request) := do
  let room ← roomFor maxFragment (fixedLength object)
  return (slices room true payload).map (ofSlice callId contextId opnum object)

end Request

end RemoteCall
