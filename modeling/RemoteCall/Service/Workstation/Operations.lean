import RemoteCall.Service.Basic
import RemoteCall.Service.Identity
import RemoteCall.Service.Status
import RemoteCall.Service.Workstation.Message
/-! The workstation service: it tells which computer this is and which group it belongs to. -/

namespace RemoteCall.WorkstationService

open Ndr

def infoOpnum : UInt16 := 0

def info (host : HostIdentity) (r : InfoRequest) : InfoResponse :=
  let computer := some (Text.ofString host.serverName)
  let group := some (Text.ofString host.domain)
  if r.level = 100 then
    ⟨.level100 (some ⟨platformNt, computer, group, host.major, host.minor⟩), Status.success.code⟩
  else if r.level = 101 then
    ⟨.level101 (some ⟨platformNt, computer, group, host.major, host.minor, none⟩),
      Status.success.code⟩
  else ⟨.unknown r.level, Status.invalidLevel.code⟩

def service (host : HostIdentity) : Service where
  interface := .workstationService
  pipeName := "wkssvc"
  transferSyntaxes := SyntaxId.supported
  operations := OperationTable.empty.register infoOpnum fun stub => do
    Message.encode (info host (← Message.decode InfoRequest stub))

end RemoteCall.WorkstationService
