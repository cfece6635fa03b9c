/-! Numbers with a meaning in the bodies of protocol data units. -/

namespace RemoteCall

/-- Outcome for one presentation context. -/
inductive NegotiationResult
  | acceptance
  | userRejection
  | providerRejection
  | negotiateAck
  deriving DecidableEq, Repr

namespace NegotiationResult

def code : NegotiationResult → UInt16
  | acceptance => 0
  | userRejection => 1
  | providerRejection => 2
  | negotiateAck => 3

def ofCode? (n : UInt16) : Option NegotiationResult :=
  match n.toNat with
  | 0 => some acceptance
  | 1 => some userRejection
  | 2 => some providerRejection
  | 3 => some negotiateAck
  | _ => none

def name : NegotiationResult → String
  | acceptance => "Acceptance"
  | userRejection => "UserRejection"
  | providerRejection => "ProviderRejection"
  | negotiateAck => "NegotiateAck"

end NegotiationResult

/-- Why a presentation context is not accepted. -/
inductive RejectionReason
  | notSpecified
  | abstractSyntaxNotSupported
  | proposedTransferSyntaxesNotSupported
  | localLimitExceeded
  deriving DecidableEq, Repr

namespace RejectionReason

def code : RejectionReason → UInt16
  | notSpecified => 0
  | abstractSyntaxNotSupported => 1
  | proposedTransferSyntaxesNotSupported => 2
  | localLimitExceeded => 3

def ofCode? (n : UInt16) : Option RejectionReason :=
  match n.toNat with
  | 0 => some notSpecified
  | 1 => some abstractSyntaxNotSupported
  | 2 => some proposedTransferSyntaxesNotSupported
  | 3 => some localLimitExceeded
  | _ => none

def name : RejectionReason → String
  | notSpecified => "NotSpecified"
  | abstractSyntaxNotSupported => "AbstractSyntaxNotSupported"
  | proposedTransferSyntaxesNotSupported => "ProposedTransferSyntaxesNotSupported"
  | localLimitExceeded => "LocalLimitExceeded"

end RejectionReason

/-- Why an association is refused as a whole. -/
inductive RefusalReason
  | notSpecified
  | temporaryCongestion
  | localLimitExceeded
  | protocolVersionNotSupported
  deriving DecidableEq, Repr

def RefusalReason.code : RefusalReason → UInt16
  | notSpecified => 0
  | temporaryCongestion => 1
  | localLimitExceeded => 2
  | protocolVersionNotSupported => 4

/-- Why a call has no response. -/
inductive FaultStatus
  | opRangeError
  | unknownInterface
  | protocolError
  | ndrFault
  deriving DecidableEq, Repr

namespace FaultStatus

def code : FaultStatus → UInt32
  | opRangeError => 0x1c010002
  | unknownInterface => 0x1c010003
  | protocolError => 0x1c01000b
  | ndrFault => 0x000006f7

def ofCode? (n : UInt32) : Option FaultStatus :=
  [opRangeError, unknownInterface, protocolError, ndrFault].find? (·.code == n)

def name : FaultStatus → String
  | opRangeError => "OpRangeError"
  | unknownInterface => "UnknownInterface"
  | protocolError => "ProtocolError"
  | ndrFault => "NdrFault"

end FaultStatus

end RemoteCall
