import RemoteCall.CommandLine.ServerOptions
import RemoteCall.CommandLine.Session
/-! The programs. The server answers on standard output what comes in on standard input, as one
connection. The client runs its command against a host with no shares of its own. -/

namespace RemoteCall

open CommandLine

/-- Passes pieces of the input to the connection until either side ends it. -/
partial def serveInput (input output : IO.FS.Stream) (c : Connection) : IO Unit := do
  let piece ← input.read 4096
  if piece.isEmpty || !c.isOpen then return ()
  let (written, c) := c.receive piece.data.toList
  output.write ⟨written.toArray⟩
  output.flush
  serveInput input output c

/-- Reports a command line that cannot be run. Help is no failure. -/
def refuse (e : UsageError) : IO UInt32 := do
  IO.eprintln e.name
  return if e = .help then 0 else 2

def runServer (arguments : List String) : IO UInt32 := do
  match ServerOptions.parse arguments with
  | .error e => refuse e
  | .ok o =>
    serveInput (← IO.getStdin) (← IO.getStdout) (.accept (.of o.config))
    return 0

def runClientCommand (arguments : List String) : IO UInt32 := do
  match ClientOptions.parse arguments with
  | .error e => refuse e
  | .ok (o, c) =>
    let outcome := runClient .reachable (.of {}) o c
    IO.print outcome.output
    IO.eprint outcome.errors
    return UInt32.ofNat outcome.code

end RemoteCall

/-- The first argument names the program. -/
def main : List String → IO UInt32
  | "server" :: arguments => RemoteCall.runServer arguments
  | "client" :: arguments => RemoteCall.runClientCommand arguments
  | _ => do
    IO.eprintln "usage: (server | client) [options]"
    return 2
