import RemoteCall.Client
import RemoteCall.CommandLine.Number
import RemoteCall.CommandLine.Scan
import RemoteCall.Text.Quoted
/-! The command line of the client program: options, then a subcommand with options of its own. -/

namespace RemoteCall.CommandLine

structure ClientOptions where
  host : String := ""
  port : UInt16 := 4135
  maxFragment : UInt16 := 4280
  timeoutSeconds : Nat := 30
  logLevel : String := "info"
  deriving DecidableEq, Repr

inductive ClientCommand
  | shares (level : UInt32)
  | shareInfo (name : String) (level : UInt32)
  | serverInfo (level : UInt32)
  | workstationInfo (level : UInt32)
  deriving DecidableEq, Repr

namespace ClientCommand

def withLevel (level : UInt32) : ClientCommand → ClientCommand
  | shares _ => shares level
  | shareInfo name _ => shareInfo name level
  | serverInfo _ => serverInfo level
  | workstationInfo _ => workstationInfo level

def withName (name : String) : ClientCommand → ClientCommand
  | shareInfo _ level => shareInfo name level
  | c => c

def describe : ClientCommand → String
  | shares level => s!"Shares \x7b level: {level.toNat} \x7d"
  | shareInfo name level => "ShareInfo \x7b name: " ++ quoted name ++ s!", level: {level.toNat} \x7d"
  | serverInfo level => s!"ServerInfo \x7b level: {level.toNat} \x7d"
  | workstationInfo level => s!"WkstaInfo \x7b level: {level.toNat} \x7d"

/-- The subcommands by name, each with its defaults. -/
def named : List (String × ClientCommand) :=
  [("shares", shares 1), ("share-info", shareInfo "" 1), ("server-info", serverInfo 101),
    ("wksta-info", workstationInfo 100)]

def names : List String := named.map (·.1)

def level : Parameter ClientCommand where
  name := "level"
  short := 'L'
  put := fun v c => do return c.withLevel (← word32? v)

/-- The operand of the one subcommand that has any. -/
def operands : ClientCommand → List (Parameter ClientCommand)
  | shareInfo .. => [{ name := "name", required := true, put := fun v c => some (c.withName v) }]
  | _ => []

/-- Asks for help, on one of the subcommands or on all. -/
def askHelp : List String → UsageError
  | [] => .help
  | [name] => if ("help" :: names).contains name then .help else .unknownCommand
  | _ => .unknownCommand

def parse (name : String) (arguments : List String) : Except UsageError ClientCommand :=
  match named.lookup name with
  | some defaults =>
    Command.settings { options := [level], operands := operands defaults } defaults arguments
  | none => .error (askHelp arguments)

end ClientCommand

namespace ClientOptions

def command : Command ClientOptions where
  options := [
    { name := "host", short := 'H', required := true, put := fun v o => some { o with host := v } },
    { name := "port", short := 'p', put := fun v o => do return { o with port := ← word16? v } },
    { name := "max-frag", short := 'f'
      put := fun v o => do return { o with maxFragment := ← word16? v } },
    { name := "timeout", short := 't'
      put := fun v o => do return { o with timeoutSeconds := ← word64? v } },
    { name := "log-level", short := 'l', put := fun v o => some { o with logLevel := v } }]
  subcommands := "help" :: ClientCommand.names

/-- The subcommand is read before the last option in front of it. -/
def parse (arguments : List String) : Except UsageError (ClientOptions × ClientCommand) := do
  let (p, subcommand) ← command.scan (.start command {}) arguments
  match subcommand with
  | none =>
    let p ← p.resolve
    if p.given.isEmpty then throw .helpForNothing
    throw .missingCommand
  | some (name, rest) =>
    let c ← ClientCommand.parse name rest
    return (← command.complete (← p.resolve), c)

def config (o : ClientOptions) : ClientConfig where
  maxTransmit := o.maxFragment
  maxReceive := o.maxFragment
  timeoutMilliseconds := 1000 * o.timeoutSeconds

end ClientOptions

end RemoteCall.CommandLine
