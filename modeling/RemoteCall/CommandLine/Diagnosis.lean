import RemoteCall.Error
import RemoteCall.Text.Quoted
/-! Errors as a program reports them at its end: the kind of the error, with its parts. -/

namespace RemoteCall

/-- A name followed by named parts. -/
def describeParts (name : String) (parts : List (String × String)) : String :=
  name ++ " \x7b " ++ String.intercalate ", " (parts.map fun p => p.1 ++ ": " ++ p.2) ++ " \x7d"

def SystemError.describe (e : SystemError) : String :=
  describeParts "Os" [("code", toString e.code), ("kind", e.kind), ("message", quoted e.message)]

/-- The parts of an error in text, those without a name in brackets. -/
def Error.describe (e : Error) : String :=
  let only (part : String) := e.kind ++ "(" ++ part ++ ")"
  let parts := describeParts e.kind
  match e with
  | system cause => only cause.describe
  | malformedPdu offset defect =>
    parts [("offset", toString offset), ("reason", quoted defect.text)]
  | malformedData offset defect =>
    parts [("offset", toString offset), ("reason", quoted defect.text)]
  | unknownPacketKind tag => only (toString tag.toNat)
  | unsupportedOperation opnum => only (toString opnum.toNat)
  | reassembly defect => only (quoted defect.text)
  | incompleteCall callId => parts [("call_id", toString callId.toNat)]
  | bindRejected result reason =>
    parts [("result", toString result.toNat), ("reason", toString reason.toNat)]
  | bindNak reason => parts [("reason", toString reason.toNat)]
  | fault status => parts [("status", toString status.toNat)]
  | invalidParameter defect => only (quoted defect.text)
  | notConnected defect => only (quoted defect.text)
  | connectionClosed | timeout => e.kind
  | invalidState defect => only (quoted defect.text)

end RemoteCall
