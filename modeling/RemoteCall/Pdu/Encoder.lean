import RemoteCall.Pdu.Unit
import RemoteCall.Text.Utf8
/-! Writing protocol data units. Both lengths of the header are computed from what is written, and
a count or a length that does not fit its field is an error. -/

namespace RemoteCall

/-- Header, body and verifier of a unit, if they fit together. -/
def assemble (h : Header) (body : ByteOrder → Except Error (List UInt8)) (auth : List UInt8) :
    Except Error (List UInt8) := do
  let o := (← Label.ofRepresentation h.representation).integers
  let body ← body o
  if auth.length ≥ 65536 then
    throw (.invalidParameter (.authTooLong auth.length))
  let total := Header.size + body.length + auth.length
  if total ≥ 65536 then
    throw (.invalidParameter (.unitTooLong total))
  return h.encode o (UInt16.ofNat total) (UInt16.ofNat auth.length) ++ body ++ auth

/-- A one-byte count. -/
def byteCount (n : Nat) (defect : ParameterDefect) : Except Error UInt8 :=
  if n < 256 then .ok (UInt8.ofNat n) else .error (.invalidParameter defect)

namespace Context

def encode (o : ByteOrder) (c : Context) : Except Error (List UInt8) := do
  let n := c.transferSyntaxes.length
  let count ← byteCount n (.transferCount n c.id)
  return o.word16 c.id ++ [count, 0] ++ c.abstractSyntax.encode o
    ++ c.transferSyntaxes.flatMap (·.encode o)

def encodeAll (o : ByteOrder) : List Context → Except Error (List UInt8)
  | [] => .ok []
  | c :: cs => do
    let a ← c.encode o
    let b ← encodeAll o cs
    return a ++ b

end Context

namespace Proposal

def encode (p : Proposal) : Except Error (List UInt8) := do
  let n := p.contexts.length
  let count ← byteCount n (.contextCount n)
  let body (o : ByteOrder) : Except Error (List UInt8) := do
    let contexts ← Context.encodeAll o p.contexts
    return o.word16 p.maxTransmit ++ o.word16 p.maxReceive ++ o.word32 p.group
      ++ [count, 0, 0, 0] ++ contexts
  assemble p.header body p.auth

end Proposal

namespace ContextAnswer

def encode (o : ByteOrder) (a : ContextAnswer) : List UInt8 :=
  o.word16 a.result ++ o.word16 a.reason ++ a.transferSyntax.encode o

end ContextAnswer

namespace Acknowledgement

/-- The length of the address with its terminator, and both. An empty address has none. -/
def addressField (o : ByteOrder) (address : String) : Except Error (List UInt8) :=
  let bs := Utf8.encode address
  if bs.isEmpty then .ok (o.word16 0)
  else if bs.length + 1 ≥ 65536 then .error (.invalidParameter .addressTooLong)
  else .ok (o.word16 (UInt16.ofNat (bs.length + 1)) ++ bs ++ [0])

def encode (a : Acknowledgement) : Except Error (List UInt8) := do
  let n := a.answers.length
  let count ← byteCount n (.resultCount n)
  let body (o : ByteOrder) : Except Error (List UInt8) := do
    let address ← addressField o a.address
    let fixed := o.word16 a.maxTransmit ++ o.word16 a.maxReceive ++ o.word32 a.group ++ address
    let padding := (4 - (Header.size + fixed.length) % 4) % 4
    return fixed ++ List.replicate padding 0 ++ [count, 0, 0, 0]
      ++ a.answers.flatMap (·.encode o)
  assemble a.header body a.auth

end Acknowledgement

namespace Refusal

def encode (r : Refusal) : Except Error (List UInt8) := do
  let n := r.versions.length
  let count ← byteCount n (.versionCount n)
  assemble r.header
    (fun o => .ok (o.word16 r.reason ++ [count] ++ r.versions.flatMap fun v => [v.1, v.2])) []

end Refusal

namespace Request

def encode (r : Request) : Except Error (List UInt8) := do
  if r.object.isSome != r.header.flags.hasObject then
    throw (.invalidParameter .objectFlag)
  let body (o : ByteOrder) : List UInt8 :=
    o.word32 r.allocHint ++ o.word16 r.contextId ++ o.word16 r.opnum
      ++ (match r.object with | some u => u.encode o | none => []) ++ r.stub
  assemble r.header (fun o => .ok (body o)) r.auth

end Request

namespace Response

def encode (r : Response) : Except Error (List UInt8) :=
  let body (o : ByteOrder) : List UInt8 :=
    o.word32 r.allocHint ++ o.word16 r.contextId ++ [r.cancelCount, 0] ++ r.stub
  assemble r.header (fun o => .ok (body o)) r.auth

end Response

namespace Fault

def encode (f : Fault) : Except Error (List UInt8) :=
  let body (o : ByteOrder) : List UInt8 :=
    o.word32 f.allocHint ++ o.word16 f.contextId ++ [f.cancelCount, 0]
      ++ o.word32 f.status ++ o.word32 0
  assemble f.header (fun o => .ok (body o)) f.auth

end Fault

namespace Pdu

def encode : Pdu → Except Error (List UInt8)
  | bind p | alterContext p => p.encode
  | bindAck a | alterContextResponse a => a.encode
  | bindNak r => r.encode
  | request r => r.encode
  | response r => r.encode
  | fault f => f.encode
  | other h body =>
    let start := body.length - h.authLength.toNat
    assemble h (fun _ => .ok (body.take start)) (body.drop start)

end Pdu

end RemoteCall
