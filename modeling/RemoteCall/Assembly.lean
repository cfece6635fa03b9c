import RemoteCall.Error
import RemoteCall.Pdu.Unit
/-! Putting the fragments of a call together again, one call at a time. A fragment that does not
continue the call drops everything gathered so far. -/

namespace RemoteCall

/-- What a request or a response contributes to its call. -/
structure Fragment where
  callId : UInt32
  flags : Flags
  stub : List UInt8
  deriving DecidableEq, Repr

def Request.fragment (r : Request) : Fragment := ⟨r.header.callId, r.header.flags, r.stub⟩

def Response.fragment (r : Response) : Fragment := ⟨r.header.callId, r.header.flags, r.stub⟩

/-- Where an assembly is in the fragments of a call. -/
inductive Assembly
  | awaitingFirst
  | accumulating (callId : UInt32) (received : List UInt8)
  | complete (callId : UInt32)
  deriving DecidableEq, Repr

namespace Assembly

def inProgress : Assembly → Bool
  | accumulating .. => true
  | _ => false

/-- The payload so far is `received`. -/
def proceed (f : Fragment) (received : List UInt8) : Option (List UInt8) × Assembly :=
  if f.flags.isLast then (some received, complete f.callId)
  else (none, accumulating f.callId received)

/-- Takes one fragment. The payload comes out with the last fragment of its call. -/
def push (a : Assembly) (f : Fragment) : Except ReassemblyDefect (Option (List UInt8)) × Assembly :=
  let accept (received : List UInt8) :=
    let (payload, next) := proceed f received
    (.ok payload, next)
  match a with
  | accumulating callId received =>
    if f.callId != callId then (.error (.foreignCall f.callId callId), awaitingFirst)
    else if f.flags.isFirst then (.error (.restarted callId), awaitingFirst)
    else accept (received ++ f.stub)
  | _ =>
    if f.flags.isFirst then accept f.stub
    else (.error (.noFirst f.callId), awaitingFirst)

/-- What follows in a list of fragments, after `callId` was seen last. -/
def gather (a : Assembly) (payload : Option (List UInt8)) (callId : UInt32) :
    List Fragment → Except Error (List UInt8)
  | [] => match payload with
    | some p => .ok p
    | none => .error (.incompleteCall callId)
  | f :: fs =>
    if payload.isSome then .error (.reassembly (.afterLast f.callId))
    else match a.push f with
      | (.ok payload, next) => gather next payload f.callId fs
      | (.error defect, _) => .error (.reassembly defect)

end Assembly

/-- The payload of the complete list of fragments of one call. -/
def reassemble (fs : List Fragment) : Except Error (List UInt8) :=
  Assembly.awaitingFirst.gather none 0 fs

end RemoteCall
