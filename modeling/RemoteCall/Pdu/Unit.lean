import RemoteCall.Pdu.Codes
import RemoteCall.Pdu.Header
import RemoteCall.SyntaxId
/-! Protocol data units by kind. -/

namespace RemoteCall

/-- The fragment size that both sides offer unless told otherwise. -/
def defaultMaxFragment : UInt16 := 4280

/-- One presentation context that a client proposes. -/
structure Context where
  id : UInt16
  abstractSyntax : SyntaxId
  transferSyntaxes : List SyntaxId
  deriving DecidableEq, Repr

/-- A bind, or an alter_context. -/
structure Proposal where
  header : Header
  maxTransmit : UInt16
  maxReceive : UInt16
  group : UInt32
  contexts : List Context
  auth : List UInt8
  deriving DecidableEq, Repr

/-- The outcome for the context at the same position of the proposal. -/
structure ContextAnswer where
  result : UInt16
  reason : UInt16
  transferSyntax : SyntaxId
  deriving DecidableEq, Repr

/-- A bind_ack, or an alter_context_resp. -/
structure Acknowledgement where
  header : Header
  maxTransmit : UInt16
  maxReceive : UInt16
  group : UInt32
  /-- The secondary address, without its terminator. -/
  address : String
  answers : List ContextAnswer
  auth : List UInt8
  deriving DecidableEq, Repr

/-- A bind_nak, with the protocol versions that the server speaks. -/
structure Refusal where
  header : Header
  reason : UInt16
  versions : List (UInt8 × UInt8)
  deriving DecidableEq, Repr

structure Request where
  header : Header
  allocHint : UInt32
  contextId : UInt16
  opnum : UInt16
  object : Option Uuid
  stub : List UInt8
  auth : List UInt8
  deriving DecidableEq, Repr

structure Response where
  header : Header
  allocHint : UInt32
  contextId : UInt16
  cancelCount : UInt8
  stub : List UInt8
  auth : List UInt8
  deriving DecidableEq, Repr

structure Fault where
  header : Header
  allocHint : UInt32
  contextId : UInt16
  cancelCount : UInt8
  status : UInt32
  auth : List UInt8
  deriving DecidableEq, Repr

inductive Pdu
  | bind (p : Proposal)
  | alterContext (p : Proposal)
  | bindAck (a : Acknowledgement)
  | alterContextResponse (a : Acknowledgement)
  | bindNak (r : Refusal)
  | request (r : Request)
  | response (r : Response)
  | fault (f : Fault)
  /-- A unit whose body is kept as it is, verifier included. -/
  | other (header : Header) (body : List UInt8)
  deriving DecidableEq, Repr

namespace Proposal

def bind (callId : UInt32) (contexts : List Context) : Proposal :=
  ⟨.of .bind callId, defaultMaxFragment, defaultMaxFragment, 0, contexts, []⟩

def alterContext (callId : UInt32) (contexts : List Context) : Proposal :=
  { bind callId contexts with header := .of .alterContext callId }

end Proposal

namespace ContextAnswer

def accept (t : SyntaxId) : ContextAnswer :=
  ⟨NegotiationResult.acceptance.code, RejectionReason.notSpecified.code, t⟩

def reject (result : NegotiationResult) (reason : RejectionReason) : ContextAnswer :=
  ⟨result.code, reason.code, .nil⟩

def isAccepted (a : ContextAnswer) : Bool := a.result == NegotiationResult.acceptance.code

end ContextAnswer

namespace Refusal

def of (callId : UInt32) (reason : RefusalReason) : Refusal :=
  ⟨.of .bindNak callId, reason.code, [(5, 0)]⟩

end Refusal

namespace Request

def of (callId : UInt32) (contextId opnum : UInt16) (stub : List UInt8) : Request :=
  ⟨.of .request callId, UInt32.ofNat stub.length, contextId, opnum, none, stub, []⟩

/-- Attaches an object and the flag that announces it. -/
def withObject (r : Request) (object : Uuid) : Request :=
  { r with
    object := some object
    header := { r.header with flags := r.header.flags.union .objectUuid } }

/-- The number of bytes between the header and the stub. -/
def fixedLength (object : Option Uuid) : Nat := 8 + (if object.isSome then 16 else 0)

end Request

namespace Response

/-- The number of bytes between the header and the stub. -/
def fixedLength : Nat := 8

def of (callId : UInt32) (contextId : UInt16) (stub : List UInt8) : Response :=
  ⟨.of .response callId, UInt32.ofNat stub.length, contextId, 0, stub, []⟩

end Response

namespace Fault

/-- A fault, whose hint is its own length. -/
def of (callId : UInt32) (contextId : UInt16) (status : UInt32) : Fault :=
  ⟨.of .fault callId, 32, contextId, 0, status, []⟩

/-- The fault of a call that was never executed. -/
def notExecuted (callId : UInt32) (contextId : UInt16) (status : FaultStatus) : Fault :=
  let f := of callId contextId status.code
  { f with header := { f.header with flags := Flags.complete.union .didNotExecute } }

def status? (f : Fault) : Option FaultStatus := FaultStatus.ofCode? f.status

end Fault

namespace Pdu

def header : Pdu → Header
  | bind p | alterContext p => p.header
  | bindAck a | alterContextResponse a => a.header
  | bindNak r => r.header
  | request r => r.header
  | response r => r.header
  | fault f => f.header
  | other h _ => h

def name : Pdu → String
  | bind _ => "bind"
  | alterContext _ => "alter_context"
  | bindAck _ => "bind_ack"
  | alterContextResponse _ => "alter_context_resp"
  | bindNak _ => "bind_nak"
  | request _ => "request"
  | response _ => "response"
  | fault _ => "fault"
  | other .. => "other"

end Pdu

end RemoteCall
