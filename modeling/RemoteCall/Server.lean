import RemoteCall.Pipe.Manager
/-! A host that serves its services over pipes and over connections. All of them share one numbering
of association groups. -/

namespace RemoteCall

structure ServerConfig where
  host : HostIdentity := {}
  /-- How many connections may be open at a time. A connection past that is refused. -/
  maxConnections : Nat := 100
  /-- The seconds after which an idle connection is closed. Nothing here depends on time. -/
  idleSeconds : Option Nat := some 300
  shares : List Share := []
  deriving DecidableEq, Repr

structure Server where
  config : ServerConfig
  registry : Registry
  groups : GroupAllocator
  pipes : PipeManager

namespace Server

def of (config : ServerConfig) : Server :=
  let registry := Registry.default config.host config.shares
  ⟨config, registry, .new, .of registry⟩

end Server

/-- The server side of one connection. A unit that cannot be cut off the stream or processed closes
it, after the answers to the units before. -/
structure Connection where
  endpoint : Endpoint
  groups : GroupAllocator
  buffer : List UInt8
  isOpen : Bool

namespace Connection

/-- A new connection, with no other one open. It is refused by a server that takes none at all: the
connection is closed at once. -/
def accept (s : Server) : Connection :=
  ⟨.ofRegistry s.registry, s.groups, [], 0 < s.config.maxConnections⟩

/-- Processes all whole units of the buffer, and gives what is written. -/
def answer (c : Connection) : List UInt8 × Connection :=
  match _h : front c.buffer with
  | .incomplete => ([], c)
  | .badLabel _ | .tooShort _ => ([], { c with isOpen := false })
  | .unit bytes rest =>
    let t := c.endpoint.process c.groups bytes
    let c := { c with buffer := rest, endpoint := t.endpoint, groups := t.groups }
    match t.answers with
    | .error _ => ([], { c with isOpen := false })
    | .ok answers =>
      let (written, final) := answer { c with buffer := rest }
      (answers.flatten ++ written, final)
termination_by c.buffer.length
decreasing_by exact length_rest_lt_of_front_unit _h

/-- A piece of the stream arrives. -/
def receive (c : Connection) (piece : List UInt8) : List UInt8 × Connection :=
  if c.isOpen then answer { c with buffer := c.buffer ++ piece } else ([], c)

/-- All that is written while the pieces of a stream arrive. -/
def serve (c : Connection) : List (List UInt8) → List UInt8 × Connection
  | [] => ([], c)
  | piece :: pieces =>
    let (written, c) := c.receive piece
    let (more, c) := c.serve pieces
    (written ++ more, c)

end Connection

namespace Server

/-- Serves connections one after the other. -/
def serveAll (s : Server) : List (List (List UInt8)) → List (List UInt8) × Server
  | [] => ([], s)
  | pieces :: connections =>
    let (written, c) := (Connection.accept s).serve pieces
    let (others, s) := serveAll { s with groups := c.groups } connections
    (written :: others, s)

end Server

end RemoteCall
