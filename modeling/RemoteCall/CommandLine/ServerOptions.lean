import RemoteCall.CommandLine.Number
import RemoteCall.CommandLine.Scan
import RemoteCall.Server
/-! The command line of the server program. -/

namespace RemoteCall.CommandLine

structure ServerOptions where
  serverName : String := "RUST-RPC-SERVER"
  comment : String := "Rust RPC Server"
  domain : String := "WORKGROUP"
  port : UInt16 := 4135
  bindAddress : String := "0.0.0.0"
  maxConnections : Nat := 100
  idleSeconds : Nat := 300
  shares : List Share := []
  logLevel : String := "info"
  deriving DecidableEq, Repr

/-- A share definition, or why it is none. -/
def readShare (definition : String) : Except String Share :=
  match Share.ofDefinition? definition with
  | some share => .ok share
  | none => .error "Share format: name:path[:comment]"

namespace ServerOptions

def command : Command ServerOptions where
  options := [
    { name := "server-name", short := 'n', put := fun v o => some { o with serverName := v } },
    { name := "comment", short := 'c', put := fun v o => some { o with comment := v } },
    { name := "domain", short := 'w', put := fun v o => some { o with domain := v } },
    { name := "port", short := 'p', put := fun v o => do return { o with port := ← word16? v } },
    { name := "bind", short := 'b', put := fun v o => some { o with bindAddress := v } },
    { name := "max-connections", put := fun v o => do return { o with maxConnections := ← word64? v } },
    { name := "idle-timeout", put := fun v o => do return { o with idleSeconds := ← word64? v } },
    { name := "shares", short := 's', repeatable := true
      put := fun v o => do return { o with shares := o.shares ++ [← (readShare v).toOption] } },
    { name := "log-level", short := 'l', put := fun v o => some { o with logLevel := v } }]

def parse (arguments : List String) : Except UsageError ServerOptions := command.settings {} arguments

/-- What the server is set up with. -/
def config (o : ServerOptions) : ServerConfig where
  host := { serverName := o.serverName, comment := o.comment, domain := o.domain }
  maxConnections := o.maxConnections
  idleSeconds := some o.idleSeconds
  shares := o.shares

end ServerOptions

end RemoteCall.CommandLine
