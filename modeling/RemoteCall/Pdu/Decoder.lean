import RemoteCall.Pdu.Body
import RemoteCall.Pdu.Unit
import RemoteCall.Text.Utf8
/-! Reading protocol data units. Bytes past the fragment length of the header are not looked at. -/

namespace RemoteCall

open Body

/-- The header of a unit that has to be of one of the given kinds. -/
def Header.expect (kinds : List PacketKind) (data : List UInt8) : Except Error Header := do
  let h ← Header.parse data
  if kinds.contains h.kind then return h
  throw (.malformedPdu 2 (.unexpectedKind h.kind))

namespace Context

def parse : Parse Context := do
  let id ← u16
  let count ← u8
  skip 1
  let abstractSyntax ← syntaxId
  return ⟨id, abstractSyntax, ← times syntaxId count.toNat⟩

end Context

namespace Proposal

def parse (h : Header) (auth : List UInt8) : Parse Proposal := do
  let maxTransmit ← u16
  let maxReceive ← u16
  let group ← u32
  let count ← u8
  skip 3
  return ⟨h, maxTransmit, maxReceive, group, ← times Context.parse count.toNat, auth⟩

def decode (data : List UInt8) : Except Error Proposal := do
  let h ← Header.expect [.bind, .alterContext] data
  run (parse h (verifier h data)) h data

end Proposal

namespace ContextAnswer

def parse : Parse ContextAnswer := do
  let result ← u16
  let reason ← u16
  return ⟨result, reason, ← syntaxId⟩

end ContextAnswer

namespace Acknowledgement

/-- The address of a run of bytes, whose final zero is the terminator. -/
def addressOf? (bs : List UInt8) : Option String :=
  Utf8.decode? (if bs.getLast? == some 0 then bs.dropLast else bs)

def parse (h : Header) (auth : List UInt8) : Parse Acknowledgement := do
  let maxTransmit ← u16
  let maxReceive ← u16
  let group ← u32
  let offset ← position
  let length ← u16
  let bs ← take length.toNat
  match addressOf? bs with
  | none => throw (.malformedPdu offset .addressEncoding)
  | some address =>
    align 4
    let count ← u8
    skip 3
    let answers ← times ContextAnswer.parse count.toNat
    return ⟨h, maxTransmit, maxReceive, group, address, answers, auth⟩

def decode (data : List UInt8) : Except Error Acknowledgement := do
  let h ← Header.expect [.bindAck, .alterContextResponse] data
  run (parse h (verifier h data)) h data

end Acknowledgement

namespace Refusal

/-- Some servers leave the list of versions out, its count included. -/
def parse (h : Header) : Parse Refusal := do
  let reason ← u16
  let count ← if ← atEnd then pure 0 else u8
  let version : Parse (UInt8 × UInt8) := do
    let major ← u8
    return (major, ← u8)
  return ⟨h, reason, ← times version count.toNat⟩

def decode (data : List UInt8) : Except Error Refusal := do
  let h ← Header.expect [.bindNak] data
  run (parse h) h data

end Refusal

namespace Request

def parse (h : Header) (auth : List UInt8) : Parse Request := do
  let allocHint ← u32
  let contextId ← u16
  let opnum ← u16
  let object ← if h.flags.hasObject then some <$> uuid else pure none
  return ⟨h, allocHint, contextId, opnum, object, ← remainder, auth⟩

def decode (data : List UInt8) : Except Error Request := do
  let h ← Header.expect [.request] data
  run (parse h (verifier h data)) h data

end Request

namespace Response

def parse (h : Header) (auth : List UInt8) : Parse Response := do
  let allocHint ← u32
  let contextId ← u16
  let cancelCount ← u8
  skip 1
  return ⟨h, allocHint, contextId, cancelCount, ← remainder, auth⟩

def decode (data : List UInt8) : Except Error Response := do
  let h ← Header.expect [.response] data
  run (parse h (verifier h data)) h data

end Response

namespace Fault

def parse (h : Header) (auth : List UInt8) : Parse Fault := do
  let allocHint ← u32
  let contextId ← u16
  let cancelCount ← u8
  skip 1
  let status ← u32
  skip 4
  return ⟨h, allocHint, contextId, cancelCount, status, auth⟩

def decode (data : List UInt8) : Except Error Fault := do
  let h ← Header.expect [.fault] data
  run (parse h (verifier h data)) h data

end Fault

namespace Pdu

/-- One unit from the start of the bytes at hand. -/
def decode (data : List UInt8) : Except Error Pdu := do
  let h ← Header.parse data
  match h.kind with
  | .bind => return .bind (← Proposal.decode data)
  | .alterContext => return .alterContext (← Proposal.decode data)
  | .bindAck => return .bindAck (← Acknowledgement.decode data)
  | .alterContextResponse => return .alterContextResponse (← Acknowledgement.decode data)
  | .bindNak => return .bindNak (← Refusal.decode data)
  | .request => return .request (← Request.decode data)
  | .response => return .response (← Response.decode data)
  | .fault => return .fault (← Fault.decode data)
  | .auth3 | .shutdown | .cancelRequest | .orphaned =>
    return .other h ((data.take h.fragmentLength.toNat).drop Header.size)

end Pdu

end RemoteCall
