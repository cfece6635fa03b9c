import RemoteCall.Assembly
import RemoteCall.Association.Negotiation
import RemoteCall.Fragment
import RemoteCall.Pdu.Decoder
import RemoteCall.Pdu.Encoder
import RemoteCall.Service.Registry
/-! The server side of one association. A unit from the client is first judged, which changes the
state and decides on an action, and the action is then performed, which gives the units to send. -/

namespace RemoteCall

/-- Where an endpoint finds the service that it talks to. -/
inductive ServiceSource
  /-- The service is given, as behind a pipe. -/
  | fixed
  /-- Each bind selects a service. -/
  | registry (r : Registry)

structure Endpoint where
  source : ServiceSource
  service : Option Service
  /-- The group of the association, once there is one. -/
  group : Option UInt32
  /-- The accepted contexts and what is spoken on them. -/
  contexts : List (UInt16 × SyntaxId)
  maxTransmit : UInt16
  maxReceive : UInt16
  assembly : Assembly

/-- A complete call to an operation. -/
structure Call where
  callId : UInt32
  contextId : UInt16
  opnum : UInt16
  stub : List UInt8
  service : Service

inductive Action
  | silent
  | reply (unit : Pdu)
  | execute (call : Call)

namespace Action

/-- Fault for a unit that does not fit the protocol. -/
def protocolFault (callId : UInt32) (contextId : UInt16) : Action :=
  reply (.fault (.notExecuted callId contextId .protocolError))

def encodeAll {α : Type} (encode : α → Except Error (List UInt8)) :
    List α → Except Error (List (List UInt8))
  | [] => .ok []
  | a :: as => do
    let bs ← encode a
    let rest ← encodeAll encode as
    return bs :: rest

/-- The fault that answers a call whose operation failed. -/
def failure (call : Call) (e : Error) : Fault :=
  match FaultStatus.ofError e with
  | .opRangeError => .notExecuted call.callId call.contextId .opRangeError
  | status => .of call.callId call.contextId status.code

/-- The units to send, none longer than `maxTransmit` if it is a response. -/
def perform (maxTransmit : UInt16) : Action → Except Error (List (List UInt8))
  | silent => .ok []
  | reply unit => do return [← unit.encode]
  | execute call => match call.service.dispatch call.opnum call.stub with
    | .ok payload => do
      encodeAll Response.encode
        (← Response.fragments call.callId call.contextId payload maxTransmit)
    | .error e => do return [← (failure call e).encode]

end Action

/-- What comes of one unit. -/
structure Turn where
  answers : Except Error (List (List UInt8))
  endpoint : Endpoint
  groups : GroupAllocator

namespace Endpoint

def ofService (s : Service) : Endpoint :=
  ⟨.fixed, some s, none, [], defaultMaxFragment, defaultMaxFragment, .awaitingFirst⟩

def ofRegistry (r : Registry) : Endpoint :=
  ⟨.registry r, none, none, [], defaultMaxFragment, defaultMaxFragment, .awaitingFirst⟩

def isBound (e : Endpoint) : Bool := e.group.isSome

/-- What is spoken on an accepted context. -/
def acceptedContext? (e : Endpoint) (id : UInt16) : Option SyntaxId :=
  (e.contexts.find? (·.1 == id)).map (·.2)

/-- Adds a context, in the place of the one with its id. -/
def insertContext (id : UInt16) (t : SyntaxId) (contexts : List (UInt16 × SyntaxId)) :
    List (UInt16 × SyntaxId) :=
  (id, t) :: contexts.filter (·.1 != id)

/-- Adds the contexts that were accepted, in order. -/
def recordContexts (contexts : List (UInt16 × SyntaxId)) :
    List Context → List ContextAnswer → List (UInt16 × SyntaxId)
  | c :: cs, a :: as =>
    let contexts := if a.isAccepted then insertContext c.id a.transferSyntax contexts else contexts
    recordContexts contexts cs as
  | _, _ => contexts

/-- A bind starts a new association. -/
def judgeBind (e : Endpoint) (g : GroupAllocator) (p : Proposal) :
    Action × Endpoint × GroupAllocator :=
  if p.header.major != Header.version then
    (.reply (.bindNak (.of p.header.callId .protocolVersionNotSupported)), e, g)
  else
    let service := match e.source with
      | .fixed => e.service
      | .registry r => r.forProposal? p
    let (ack, g) := Acknowledgement.ofBind g service p
    let e := { e with
      service
      group := some ack.group
      contexts := recordContexts [] p.contexts ack.answers
      maxTransmit := ack.maxTransmit
      maxReceive := ack.maxReceive
      assembly := .awaitingFirst }
    (.reply (.bindAck ack), e, g)

/-- An alter_context adds contexts and changes nothing else that was agreed on. -/
def judgeAlterContext (e : Endpoint) (p : Proposal) : Action × Endpoint :=
  match e.group with
  | none => (.protocolFault p.header.callId 0, e)
  | some group =>
    let service := match e.service, e.source with
      | none, .registry r => r.forProposal? p
      | service, _ => service
    let ack := { Acknowledgement.ofAlterContext service p group with
      maxTransmit := e.maxTransmit
      maxReceive := e.maxReceive }
    let e := { e with service, contexts := recordContexts e.contexts p.contexts ack.answers }
    (.reply (.alterContextResponse ack), e)

/-- A fragment of a request. The last one of its call decides what happens to the call. -/
def judgeRequest (e : Endpoint) (r : Request) : Action × Endpoint :=
  let callId := r.header.callId
  let (pushed, assembly) := e.assembly.push r.fragment
  let e := { e with assembly }
  match pushed with
  | .error _ => (.protocolFault callId r.contextId, e)
  | .ok none => (.silent, e)
  | .ok (some stub) =>
    match e.service, e.acceptedContext? r.contextId with
    | some service, some _ => (.execute ⟨callId, r.contextId, r.opnum, stub, service⟩, e)
    | _, _ => (.reply (.fault (.notExecuted callId r.contextId .unknownInterface)), e)

/-- An orphaned unit drops the call in progress, the other units of this kind have no effect. -/
def judgeOther (e : Endpoint) (h : Header) : Action × Endpoint :=
  match h.kind with
  | .orphaned => (.silent, { e with assembly := .awaitingFirst })
  | _ => (.silent, e)

def judgePdu (e : Endpoint) (g : GroupAllocator) : Pdu → Action × Endpoint × GroupAllocator
  | .bind p => e.judgeBind g p
  | .alterContext p =>
    let (action, e) := e.judgeAlterContext p
    (action, e, g)
  | .request r =>
    let (action, e) := e.judgeRequest r
    (action, e, g)
  | .other h _ =>
    let (action, e) := e.judgeOther h
    (action, e, g)
  | unit => (.protocolFault unit.header.callId 0, e, g)

/-- Another major version is a fault for all but a bind, which has an answer for it. -/
def judge (e : Endpoint) (g : GroupAllocator) (data : List UInt8) :
    Except Error (Action × Endpoint × GroupAllocator) := do
  let h ← Header.parse data
  if h.major != Header.version && h.kind != .bind then
    return (.protocolFault h.callId 0, e, g)
  return e.judgePdu g (← Pdu.decode data)

def turn (e : Endpoint) (g : GroupAllocator)
    (judged : Except Error (Action × Endpoint × GroupAllocator)) : Turn :=
  match judged with
  | .error err => ⟨.error err, e, g⟩
  | .ok (action, e, g) => ⟨action.perform e.maxTransmit, e, g⟩

/-- Takes any unit from the client. -/
def process (e : Endpoint) (g : GroupAllocator) (data : List UInt8) : Turn :=
  e.turn g (e.judge g data)

/-- Takes a bind or an alter_context. -/
def processProposal (e : Endpoint) (g : GroupAllocator) (data : List UInt8) : Turn :=
  e.turn g do
    let p ← Proposal.decode data
    match p.header.kind with
    | .alterContext =>
      let (action, e) := e.judgeAlterContext p
      return (action, e, g)
    | _ => return e.judgeBind g p

/-- Takes a fragment of a request. -/
def processRequest (e : Endpoint) (g : GroupAllocator) (data : List UInt8) : Turn :=
  e.turn g do
    let (action, e) := e.judgeRequest (← Request.decode data)
    return (action, e, g)

end Endpoint

end RemoteCall
