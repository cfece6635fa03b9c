import RemoteCall.Pdu.Kind
import RemoteCall.Text.Hex
/-! What can go wrong, as causes, and the one place where causes become text. -/

namespace RemoteCall

/-- Why the bytes of a protocol data unit cannot be read. -/
inductive PduDefect
  | headerShort (length : Nat)
  | headerTruncated
  | integerRepresentation (n : Nat)
  | characterRepresentation (n : Nat)
  | floatRepresentation (n : Nat)
  | fragmentBelowHeader (length : Nat)
  | fragmentBeyondBuffer (length buffer : Nat)
  | authBeyondFragment (auth fragment : Nat)
  | unexpectedKind (kind : PacketKind)
  | short (needed remaining : Nat)
  | addressEncoding
  deriving DecidableEq, Repr

namespace PduDefect

def text : PduDefect → String
  | headerShort n => s!"common header needs 16 bytes, got {n}"
  | headerTruncated => "truncated common header"
  | integerRepresentation n => s!"unknown integer representation {n}"
  | characterRepresentation n => s!"unknown character representation {n}"
  | floatRepresentation n => s!"unknown floating point representation {n}"
  | fragmentBelowHeader n => s!"fragment length {n} shorter than the header"
  | fragmentBeyondBuffer f b => s!"fragment length {f} exceeds buffer of {b} bytes"
  | authBeyondFragment a f => s!"auth length {a} does not fit fragment of {f} bytes"
  | unexpectedKind k => "unexpected packet type " ++ k.name
  | short n r => s!"needed {n} bytes, {r} remaining"
  | addressEncoding => "secondary address is not ASCII"

end PduDefect

/-- What a read of parameter data was after. -/
inductive DataItem
  | padding
  | u8
  | u16
  | u32
  | u64
  | run
  | characters
  deriving DecidableEq, Repr

namespace DataItem

def text : DataItem → String
  | padding => "alignment padding"
  | u8 => "u8"
  | u16 => "u16"
  | u32 => "u32"
  | u64 => "u64"
  | run => "byte run"
  | characters => "string characters"

end DataItem

/-- Why parameter data cannot be read. -/
inductive DataDefect
  | short (item : DataItem) (needed remaining : Nat)
  | counts (offset actual max : Nat)
  | loneSurrogate
  | unknownArm (level : UInt32)
  | noReferent (id : UInt32)
  | wrongType (id : UInt32)
  | shape
  | inReferent (id : UInt32) (defect : DataDefect)
  deriving DecidableEq, Repr

namespace DataDefect

def text : DataDefect → String
  | short item n r => item.text ++ s!" needs {n} bytes, {r} remaining"
  | counts o a m => s!"string offset {o} + actual count {a} exceeds max count {m}"
  | loneSurrogate => "Invalid UTF-16: invalid utf-16: lone surrogate found"
  | unknownArm level => s!"non-null referent for unknown info level {level.toNat}"
  | noReferent id => "referent 0x" ++ hex8 id ++ " has no deferred data"
  | wrongType id => "referent 0x" ++ hex8 id ++ " bound to the wrong type"
  | shape => "value of another shape"
  | inReferent id defect => "referent 0x" ++ hex8 id ++ ": " ++ defect.text

end DataDefect

/-- Why a fragment does not continue its call. -/
inductive ReassemblyDefect
  | foreignCall (callId incomplete : UInt32)
  | restarted (callId : UInt32)
  | noFirst (callId : UInt32)
  | afterLast (callId : UInt32)
  deriving DecidableEq, Repr

namespace ReassemblyDefect

def text : ReassemblyDefect → String
  | foreignCall c i => s!"fragment for call {c.toNat} while call {i.toNat} is incomplete"
  | restarted c => s!"call {c.toNat} restarted before its last fragment"
  | noFirst c => s!"call {c.toNat} fragment without a preceding first fragment"
  | afterLast c => s!"fragment for call {c.toNat} after the last fragment"

end ReassemblyDefect

/-- Why a value given by the caller is refused. -/
inductive ParameterDefect
  | authTooLong (length : Nat)
  | unitTooLong (length : Nat)
  | contextCount (n : Nat)
  | transferCount (n : Nat) (contextId : UInt16)
  | resultCount (n : Nat)
  | addressTooLong
  | versionCount (n : Nat)
  | objectFlag
  | noRoom (maxFragment overhead : Nat)
  | messageTooLarge
  | noPipe (name : String)
  /-- A reason given by an operation handler. -/
  | handler (reason : String)
  deriving DecidableEq, Repr

namespace ParameterDefect

def text : ParameterDefect → String
  | authTooLong n => s!"auth verifier of {n} bytes is too long"
  | unitTooLong n => s!"PDU of {n} bytes exceeds the maximum fragment length"
  | contextCount n => s!"{n} presentation contexts"
  | transferCount n c => s!"{n} transfer syntaxes in context {c.toNat}"
  | resultCount n => s!"{n} results"
  | addressTooLong => "secondary address too long"
  | versionCount n => s!"{n} versions"
  | objectFlag => "object UUID and OBJECT_UUID flag disagree"
  | noRoom m o => s!"max fragment size {m} leaves no room for data after {o} bytes of headers"
  | messageTooLarge => "Message too large"
  | noPipe name => "Pipe '" ++ name ++ "' not found"
  | handler reason => reason

end ParameterDefect

/-- Why an operation does not fit the state of its object. -/
inductive StateDefect
  | unboundPointer (slot : Nat)
  | notBound
  | boundTo (bound wanted : String)
  | expectedAck (kind : PacketKind)
  | foreignResponse (callId waiting : UInt32)
  | unexpectedDuringCall (kind : PacketKind) (callId : UInt32)
  | nothingPending (pipe : String)
  deriving DecidableEq, Repr

namespace StateDefect

def text : StateDefect → String
  | unboundPointer slot => s!"pointer still bound to referent slot {slot}"
  | notBound => "not bound"
  | boundTo bound wanted => "bound to " ++ bound ++ ", not " ++ wanted
  | expectedAck kind => "expected bind_ack, got " ++ kind.name
  | foreignResponse c w => s!"response for call {c.toNat} while waiting for call {w.toNat}"
  | unexpectedDuringCall kind c => "unexpected " ++ kind.name ++ s!" during call {c.toNat}"
  | nothingPending pipe => "no pending data on pipe " ++ pipe

end StateDefect

/-- A link that is not there. -/
inductive LinkDefect
  | pipe
  | tcp
  deriving DecidableEq, Repr

def LinkDefect.text : LinkDefect → String
  | .pipe => "Pipe not connected"
  | .tcp => "Not connected"

/-- A failure reported by the operating system. -/
structure SystemError where
  code : Nat
  kind : String
  message : String
  deriving DecidableEq, Repr

inductive Error
  | system (cause : SystemError)
  | malformedPdu (offset : Nat) (defect : PduDefect)
  | malformedData (offset : Nat) (defect : DataDefect)
  | unknownPacketKind (tag : UInt8)
  | unsupportedOperation (opnum : UInt16)
  | reassembly (defect : ReassemblyDefect)
  | incompleteCall (callId : UInt32)
  | bindRejected (result reason : UInt16)
  | bindNak (reason : UInt16)
  | fault (status : UInt32)
  | invalidParameter (defect : ParameterDefect)
  | notConnected (defect : LinkDefect)
  | connectionClosed
  | timeout
  | invalidState (defect : StateDefect)
  deriving DecidableEq, Repr

namespace Error

/-- What kind of error it is. -/
def kind : Error → String
  | system _ => "Io"
  | malformedPdu .. => "MalformedPdu"
  | malformedData .. => "MalformedNdr"
  | unknownPacketKind _ => "UnknownPacketType"
  | unsupportedOperation _ => "UnsupportedOperation"
  | reassembly _ => "Reassembly"
  | incompleteCall _ => "IncompleteCall"
  | bindRejected .. => "BindRejected"
  | bindNak _ => "BindNak"
  | fault _ => "Fault"
  | invalidParameter _ => "InvalidParameter"
  | notConnected _ => "ConnectionError"
  | connectionClosed => "ConnectionClosed"
  | timeout => "Timeout"
  | invalidState _ => "InvalidState"

def message : Error → String
  | system cause => "I/O error: " ++ cause.message ++ s!" (os error {cause.code})"
  | malformedPdu offset defect => s!"Malformed PDU at offset {offset}: " ++ defect.text
  | malformedData offset defect => s!"Malformed NDR at offset {offset}: " ++ defect.text
  | unknownPacketKind tag => s!"Unknown packet type: {tag.toNat}"
  | unsupportedOperation opnum => s!"Unsupported operation: opnum {opnum.toNat}"
  | reassembly defect => "Fragment reassembly error: " ++ defect.text
  | incompleteCall callId => s!"Call {callId.toNat} ended without a last fragment"
  | bindRejected result reason => s!"Bind rejected: result {result.toNat}, reason {reason.toNat}"
  | bindNak reason => s!"Bind refused with bind_nak, reason {reason.toNat}"
  | fault status => "RPC fault: status 0x" ++ hex8 status
  | invalidParameter defect => "Invalid parameter: " ++ defect.text
  | notConnected defect => "Connection error: " ++ defect.text
  | connectionClosed => "Connection closed"
  | timeout => "Operation timed out"
  | invalidState defect => "Invalid state: " ++ defect.text

/-- Whether the error came from reading bytes of the wire. -/
def isDecodeError : Error → Bool
  | malformedPdu .. | malformedData .. | unknownPacketKind _ => true
  | _ => false

end Error

end RemoteCall
