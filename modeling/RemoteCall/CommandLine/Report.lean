import RemoteCall.Service.Server.Message
import RemoteCall.Service.Status
import RemoteCall.Service.Workstation.Message
import RemoteCall.Text.Hex
/-! The responses of a host as lines of text. A response without success is refused. -/

namespace RemoteCall.CommandLine

open Ndr ServerService

/-- Refuses every status but success. -/
def checkStatus (status : UInt32) : Except String Unit :=
  if status = 0 then .ok ()
  else
    let name := ((Status.ofCode? status).map Status.name).getD "unknown"
    .error ("server returned WERROR 0x" ++ hex8 status ++ " (" ++ name ++ ")")

/-- The text behind a pointer. -/
def shown (t : Option Text) : String := (t.map (·.value)).getD ""

def notUnderstood (level : UInt32) : List String := [s!"Level {level.toNat} not understood"]

def sharesReport (r : ShareEnumResponse) : List String :=
  s!"{r.totalEntries.toNat} share(s):" :: r.info.names.map ("  " ++ ·)

def shareReport : ShareInfo → List String
  | .level0 (some i) => ["Name: " ++ shown i.name]
  | .level1 (some i) =>
    ["Name:    " ++ shown i.name, "Type:    0x" ++ hex8 i.type, "Comment: " ++ shown i.remark]
  | .level0 none | .level1 none => []
  | .unknown level => notUnderstood level

def serverReport : ServerInfo → List String
  | .level100 (some i) => [s!"Platform: {i.platform.toNat}", "Name:     " ++ shown i.name]
  | .level101 (some i) =>
    [s!"Platform: {i.platform.toNat}", "Name:     " ++ shown i.name,
      s!"Version:  {i.major.toNat}.{i.minor.toNat}", "Type:     0x" ++ hex8 i.type,
      "Comment:  " ++ shown i.comment]
  | .level100 none | .level101 none => []
  | .unknown level => notUnderstood level

def workstationReport (i : WorkstationService.WorkstationInfo) : List String :=
  ["Computer: " ++ i.computerName.getD "", "Domain:   " ++ i.lanGroup.getD ""]

end RemoteCall.CommandLine
