import RemoteCall.Association.Group
import RemoteCall.Pdu.Unit
import RemoteCall.Service.Basic
/-! Answering a proposal: one answer for each presentation context, at the same position. -/

namespace RemoteCall

/-- The smallest fragment size that is ever agreed on. -/
def minFragment : UInt16 := 1432

namespace ContextAnswer

/-- The first transfer encoding of the client that the service speaks is accepted. -/
def negotiate (service : Option Service) (c : Context) : ContextAnswer :=
  match service with
  | none => reject .providerRejection .abstractSyntaxNotSupported
  | some s =>
    if s.interface.id != c.abstractSyntax then
      reject .providerRejection .abstractSyntaxNotSupported
    else match c.transferSyntaxes.find? s.transferSyntaxes.contains with
      | some t => accept t
      | none =>
        if c.transferSyntaxes.any (·.isFeatureNegotiation) then
          reject .negotiateAck .abstractSyntaxNotSupported
        else reject .providerRejection .proposedTransferSyntaxesNotSupported

end ContextAnswer

namespace Acknowledgement

/-- Each side is offered what the other one can receive, but never less than the floor. -/
def answering (kind : PacketKind) (service : Option Service) (p : Proposal) (group : UInt32)
    (address : String) : Acknowledgement where
  header := .of kind p.header.callId
  maxTransmit := max p.maxReceive minFragment
  maxReceive := max p.maxTransmit minFragment
  group := group
  address := address
  answers := p.contexts.map (ContextAnswer.negotiate service)
  auth := []

/-- Answers a bind. Group zero asks for a new group, any other is kept. -/
def ofBind (g : GroupAllocator) (service : Option Service) (p : Proposal) :
    Acknowledgement × GroupAllocator :=
  let (group, g) := if p.group = 0 then g.allocate else (p.group, g)
  let address := match service with
    | some s => "\\PIPE\\" ++ s.pipeName
    | none => ""
  (answering .bindAck service p group address, g)

/-- Answers an alter_context within a group. -/
def ofAlterContext (service : Option Service) (p : Proposal) (group : UInt32) : Acknowledgement :=
  answering .alterContextResponse service p group ""

end Acknowledgement

end RemoteCall
