import RemoteCall.Assembly
import RemoteCall.Fragment
import RemoteCall.Pdu.Decoder
import RemoteCall.Pdu.Encoder
import RemoteCall.Service.Server.Operations
import RemoteCall.Service.Workstation.Operations
import RemoteCall.Transport.Basic
/-! The client side of an association: it binds to an interface and then makes calls, one at a time,
over any transport. -/

namespace RemoteCall

open Ndr

structure ClientConfig where
  maxTransmit : UInt16 := defaultMaxFragment
  maxReceive : UInt16 := defaultMaxFragment
  /-- How long a reply may take. Here no time passes, and a wait for nothing runs out. -/
  timeoutMilliseconds : Nat := 30000
  deriving DecidableEq, Repr

/-- What a bind agreed on. -/
structure Association where
  interface : Interface
  contextId : UInt16
  transferSyntax : SyntaxId
  group : UInt32
  address : String
  /-- The largest fragment that the server takes. -/
  maxTransmit : UInt16
  deriving DecidableEq, Repr

structure Client where
  config : ClientConfig
  association : Option Association
  /-- The number of the latest call. -/
  callId : UInt32
  deriving DecidableEq, Repr

namespace Client

def of (config : ClientConfig) : Client := ⟨config, none, 0⟩

/-- A client that talks, and what it talks through. -/
abbrev Talk (σ : Type) := EStateM Error (Client × σ)

variable {σ : Type}

/-- A result that needs neither the client nor the link. -/
def given {α : Type} (r : Except Error α) : Talk σ α := fun s =>
  match r with
  | .ok a => .ok a s
  | .error e => .error e s

def nextCallId : Talk σ UInt32 := do
  let (c, l) ← get
  set ({ c with callId := c.callId + 1 }, l)
  return c.callId + 1

/-- An operation of the transport. -/
def onLink {α : Type} (f : σ → Except Error α × σ) : Talk σ α := fun (c, l) =>
  match f l with
  | (.ok a, l) => .ok a (c, l)
  | (.error e, l) => .error e (c, l)

/-- What a client proposes: NDR on context 0, feature negotiation on context 1. -/
def proposal (config : ClientConfig) (callId : UInt32) (i : Interface) : Proposal :=
  { Proposal.bind callId [⟨0, i.id, [.ndr2]⟩, ⟨1, i.id, [.featureNegotiation]⟩] with
    maxTransmit := config.maxTransmit
    maxReceive := config.maxReceive }

/-- The first context that was accepted, or the first answer as an error. -/
def associate (i : Interface) (p : Proposal) (ack : Acknowledgement) : Except Error Association :=
  match (p.contexts.zip ack.answers).find? (·.2.isAccepted) with
  | some (context, answer) =>
    .ok ⟨i, context.id, answer.transferSyntax, ack.group, ack.address,
      min ack.maxReceive p.maxTransmit⟩
  | none =>
    match ack.answers with
    | a :: _ => .error (.bindRejected a.result a.reason)
    | [] => .error (.bindRejected 0 0)

def bind (t : Transport σ) (i : Interface) : Talk σ Association := do
  let callId ← nextCallId
  let p := proposal (← get).1.config callId i
  onLink (t.send (← given p.encode))
  match ← given (Pdu.decode (← onLink t.receive)) with
  | .bindAck ack =>
    let association ← given (associate i p ack)
    modify fun (c, l) => ({ c with association := some association }, l)
    return association
  | .bindNak refusal => throw (.bindNak refusal.reason)
  | other => throw (.invalidState (.expectedAck other.header.kind))

def sendAll (t : Transport σ) : List Request → Talk σ Unit
  | [] => return ()
  | r :: rs => do
    onLink (t.send (← given r.encode))
    sendAll t rs

/-- One unit that was received during a call: what it adds to the payload, which is complete with the
last fragment. -/
def takeReply (callId : UInt32) (a : Assembly) : Pdu → Except Error (Option (List UInt8)) × Assembly
  | .response r =>
    if r.header.callId != callId then
      (.error (.invalidState (.foreignResponse r.header.callId callId)), a)
    else
      let (pushed, a) := a.push r.fragment
      (pushed.mapError .reassembly, a)
  | .fault f => (.error (.fault f.status), a)
  | other => (.error (.invalidState (.unexpectedDuringCall other.header.kind callId)), a)

/-- Receives until the payload is complete. When the supply is used up the next receive fails. -/
def collect (t : Transport σ) (callId : UInt32) : (supply : Nat) → Assembly → Talk σ (List UInt8)
  | 0, _ => do
    let _ ← onLink t.receive
    throw .connectionClosed
  | supply + 1, a => do
    let unit ← given (Pdu.decode (← onLink t.receive))
    match takeReply callId a unit with
    | (.error e, _) => throw e
    | (.ok (some payload), _) => return payload
    | (.ok none, a) => collect t callId supply a

/-- Calls an operation: the request goes out in fragments, the response is put together. -/
def call (t : Transport σ) (opnum : UInt16) (stub : List UInt8) : Talk σ (List UInt8) := do
  match (← get).1.association with
  | none => throw (.invalidState .notBound)
  | some association =>
    let callId ← nextCallId
    sendAll t (← given
      (Request.fragments callId association.contextId opnum none stub association.maxTransmit))
    collect t callId (t.supply (← get).2) .awaitingFirst

/-- A call between messages. -/
def invoke {α : Type} [Message α] (t : Transport σ) (opnum : UInt16) (request : α) (β : Type)
    [Message β] : Talk σ β := do
  let payload ← call t opnum (← given (Message.encode request))
  given (Message.decode β payload)

def ensureBound (i : Interface) : Talk σ Unit := do
  match (← get).1.association with
  | none => throw (.invalidState .notBound)
  | some association =>
    if association.interface.uuid != i.uuid then
      throw (.invalidState (.boundTo association.interface.name i.name))

open ServerService in
def shareEnum (t : Transport σ) (server : String) (level : UInt32) : Talk σ ShareEnumResponse := do
  ensureBound .serverService
  invoke t shareEnumOpnum (ShareEnumRequest.of server level) ShareEnumResponse

open ServerService in
def shareInfo (t : Transport σ) (server share : String) (level : UInt32) :
    Talk σ ShareInfoResponse := do
  ensureBound .serverService
  invoke t shareInfoOpnum (ShareInfoRequest.of server share level) ShareInfoResponse

open ServerService in
def serverInfo (t : Transport σ) (server : String) (level : UInt32) : Talk σ ServerInfoResponse := do
  ensureBound .serverService
  invoke t serverInfoOpnum (ServerInfoRequest.of server level) ServerInfoResponse

open WorkstationService in
def workstationInfo (t : Transport σ) (server : String) (level : UInt32) :
    Talk σ WorkstationService.InfoResponse := do
  ensureBound .workstationService
  invoke t infoOpnum (InfoRequest.of server level) InfoResponse

def close (t : Transport σ) : Talk σ Unit := do
  modify fun (c, l) => ({ c with association := none }, l)
  onLink t.close

end Client

end RemoteCall
