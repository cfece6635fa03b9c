import RemoteCall.CommandLine.ClientOptions
import RemoteCall.CommandLine.Diagnosis
import RemoteCall.CommandLine.Report
import RemoteCall.Transport.Tcp
/-! One run of the client program: it binds, makes one call, reports the response and closes. -/

namespace RemoteCall.CommandLine

/-- How a program ends: its exit code, and what it printed. -/
structure Outcome where
  code : Nat
  output : String
  errors : String
  deriving DecidableEq, Repr

namespace Outcome

def printed (lines : List String) : String := String.join (lines.map (· ++ "\n"))

def success (lines : List String) : Outcome := ⟨0, printed lines, ""⟩

def failure (lines : List String) (reason : String) : Outcome :=
  ⟨1, printed lines, "Error: " ++ reason ++ "\n"⟩

end Outcome

namespace ClientCommand

open Client

/-- The report of a response, or why it is refused. -/
def reply (status : UInt32) (lines : List String) : Except String (List String) := do
  checkStatus status
  return lines

/-- Binds to the interface of the command and makes its call. -/
def perform {σ : Type} (t : Transport σ) (server : String) :
    ClientCommand → Talk σ (Except String (List String))
  | shares level => do
    let _ ← bind t .serverService
    let r ← Client.shareEnum t server level
    return reply r.status (sharesReport r)
  | shareInfo name level => do
    let _ ← bind t .serverService
    let r ← Client.shareInfo t server name level
    return reply r.status (shareReport r.info)
  | serverInfo level => do
    let _ ← bind t .serverService
    let r ← Client.serverInfo t server level
    return reply r.status (serverReport r.info)
  | workstationInfo level => do
    let _ ← bind t .workstationService
    let r ← Client.workstationInfo t server level
    return reply r.status (workstationReport r.info)

end ClientCommand

/-- The program on an open link. What it has printed stays printed when the link fails to close. -/
def converse {σ : Type} (t : Transport σ) (link : σ) (o : ClientOptions) (c : ClientCommand) :
    Outcome :=
  match c.perform t ("\\\\" ++ o.host) (.of o.config, link) with
  | .error e _ => .failure [] e.describe
  | .ok (.error reason) _ => .failure [] (quoted reason)
  | .ok (.ok lines) s =>
    match Client.close t s with
    | .error e _ => .failure lines e.describe
    | .ok _ _ => .success lines

/-- The program against a server. -/
def runClient (network : Network) (s : Server) (o : ClientOptions) (c : ClientCommand) : Outcome :=
  match TcpLink.connect network s with
  | .error e => .failure [] e.describe
  | .ok link => converse TcpLink.transport link o c

end RemoteCall.CommandLine
