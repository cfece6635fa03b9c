import RemoteCall.Service.Basic
import RemoteCall.Service.Identity
import RemoteCall.Service.Server.Message
import RemoteCall.Service.Share
import RemoteCall.Service.Status
/-! The server service: it lists shares, looks one up, and tells about the host. -/

namespace RemoteCall.ServerService

open Ndr

def shareEnumOpnum : UInt16 := 15
def shareInfoOpnum : UInt16 := 16
def serverInfoOpnum : UInt16 := 21

def ShareInfo0.ofShare (s : Share) : ShareInfo0 := ⟨some (.ofString s.name)⟩

def ShareInfo1.ofShare (s : Share) : ShareInfo1 :=
  ⟨some (.ofString s.name), s.typeBits, some (.ofString s.comment)⟩

/-- All shares from the point of the request on; the answer never has to be resumed. -/
def shareEnum (shares : List Share) (r : ShareEnumRequest) : ShareEnumResponse :=
  let selected := shares.drop (r.resume.getD 0).toNat
  let answer (info : ShareListing) : ShareEnumResponse :=
    ⟨info, countOf shares.length, r.resume.map fun _ => 0, Status.success.code⟩
  match r.info with
  | .level0 _ => answer (.level0 (some (.ofEntries (selected.map .ofShare))))
  | .level1 _ => answer (.level1 (some (.ofEntries (selected.map .ofShare))))
  | .unknown level => ⟨.unknown level, 0, none, Status.invalidLevel.code⟩

def shareInfo (shares : List Share) (r : ShareInfoRequest) : ShareInfoResponse :=
  if r.level > 1 then ⟨.unknown r.level, Status.invalidLevel.code⟩
  else match Share.find? shares r.shareName.value with
    | none => ⟨.absent r.level, Status.netNameNotFound.code⟩
    | some s =>
      let info : ShareInfo :=
        if r.level = 0 then .level0 (some (.ofShare s)) else .level1 (some (.ofShare s))
      ⟨info, Status.success.code⟩

def serverInfo (host : HostIdentity) (r : ServerInfoRequest) : ServerInfoResponse :=
  let name := some (Text.ofString host.serverName)
  if r.level = 100 then
    ⟨.level100 (some ⟨platformNt, name⟩), Status.success.code⟩
  else if r.level = 101 then
    let comment := some (Text.ofString host.comment)
    ⟨.level101 (some ⟨platformNt, name, host.major, host.minor, serverType, comment⟩),
      Status.success.code⟩
  else ⟨.unknown r.level, Status.invalidLevel.code⟩

/-- An operation between messages as one between their parameters. -/
def handler {α β : Type} [Message α] [Message β] (run : α → β) : Handler := fun stub => do
  Message.encode (run (← Message.decode α stub))

/-- The service of a host, with the shares that it publishes. -/
def service (host : HostIdentity) (shares : List Share) : Service where
  interface := .serverService
  pipeName := "srvsvc"
  transferSyntaxes := SyntaxId.supported
  operations := OperationTable.empty
    |>.register shareEnumOpnum (handler (shareEnum (Share.published shares)))
    |>.register shareInfoOpnum (handler (shareInfo (Share.published shares)))
    |>.register serverInfoOpnum (handler (serverInfo host))

end RemoteCall.ServerService
