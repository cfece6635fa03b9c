import RemoteCall.Ndr.Marshal
/-! Parameters of the server service. What is told about shares and about the host depends on a
level; a level without a layout has no data. -/

namespace RemoteCall.ServerService

open Ndr

structure ShareInfo0 where
  name : Option Text
  deriving DecidableEq, Repr

structure ShareInfo1 where
  name : Option Text
  type : UInt32
  remark : Option Text
  deriving DecidableEq, Repr

/-- A count and the entries it counts. -/
structure Container (α : Type) where
  entriesRead : UInt32
  buffer : Option (List α)
  deriving DecidableEq, Repr

namespace Container

def ofEntries {α : Type} (entries : List α) : Container α := ⟨countOf entries.length, some entries⟩

/-- What a client sends. -/
def empty {α : Type} : Container α := ⟨0, none⟩

def entries {α : Type} (c : Container α) : List α := c.buffer.getD []

end Container

/-- Shares at a level. -/
inductive ShareListing
  | level0 (info : Option (Container ShareInfo0))
  | level1 (info : Option (Container ShareInfo1))
  | unknown (level : UInt32)
  deriving DecidableEq, Repr

/-- One share at a level. -/
inductive ShareInfo
  | level0 (info : Option ShareInfo0)
  | level1 (info : Option ShareInfo1)
  | unknown (level : UInt32)
  deriving DecidableEq, Repr

structure ServerInfo100 where
  platform : UInt32
  name : Option Text
  deriving DecidableEq, Repr

structure ServerInfo101 where
  platform : UInt32
  name : Option Text
  major : UInt32
  minor : UInt32
  type : UInt32
  comment : Option Text
  deriving DecidableEq, Repr

/-- The host at a level. -/
inductive ServerInfo
  | level100 (info : Option ServerInfo100)
  | level101 (info : Option ServerInfo101)
  | unknown (level : UInt32)
  deriving DecidableEq, Repr

instance : Marshal ShareInfo0 where
  layout := .record [Marshal.layout (Option Text)]
  toValue i := .record [toValue i.name]
  ofValue?
    | .record [name] => return ⟨← ofValue? name⟩
    | _ => none

instance : Marshal ShareInfo1 where
  layout := .record [Marshal.layout (Option Text), .u32, Marshal.layout (Option Text)]
  toValue i := .record [toValue i.name, .u32 i.type, toValue i.remark]
  ofValue?
    | .record [name, .u32 type, remark] => return ⟨← ofValue? name, type, ← ofValue? remark⟩
    | _ => none

instance {α : Type} [Marshal α] : Marshal (Container α) where
  layout := .record [.u32, Marshal.layout (Option (List α))]
  toValue c := .record [.u32 c.entriesRead, toValue c.buffer]
  ofValue?
    | .record [.u32 count, buffer] => return ⟨count, ← ofValue? buffer⟩
    | _ => none

instance : Marshal ShareListing where
  layout := .choice true
    [(0, Marshal.layout (Container ShareInfo0)), (1, Marshal.layout (Container ShareInfo1))]
  toValue
    | .level0 info => .choice true 0 (toValue info)
    | .level1 info => .choice true 1 (toValue info)
    | .unknown level => .choice true level .null
  ofValue?
    | .choice true level arm =>
      if level = 0 then return .level0 (← ofValue? arm)
      else if level = 1 then return .level1 (← ofValue? arm)
      else some (.unknown level)
    | _ => none

instance : Marshal ShareInfo where
  layout := .choice false [(0, Marshal.layout ShareInfo0), (1, Marshal.layout ShareInfo1)]
  toValue
    | .level0 info => .choice false 0 (toValue info)
    | .level1 info => .choice false 1 (toValue info)
    | .unknown level => .choice false level .null
  ofValue?
    | .choice false level arm =>
      if level = 0 then return .level0 (← ofValue? arm)
      else if level = 1 then return .level1 (← ofValue? arm)
      else some (.unknown level)
    | _ => none

instance : Marshal ServerInfo100 where
  layout := .record [.u32, Marshal.layout (Option Text)]
  toValue i := .record [.u32 i.platform, toValue i.name]
  ofValue?
    | .record [.u32 platform, name] => return ⟨platform, ← ofValue? name⟩
    | _ => none

instance : Marshal ServerInfo101 where
  layout := .record
    [.u32, Marshal.layout (Option Text), .u32, .u32, .u32, Marshal.layout (Option Text)]
  toValue i := .record
    [.u32 i.platform, toValue i.name, .u32 i.major, .u32 i.minor, .u32 i.type, toValue i.comment]
  ofValue?
    | .record [.u32 platform, name, .u32 major, .u32 minor, .u32 type, comment] =>
      return ⟨platform, ← ofValue? name, major, minor, type, ← ofValue? comment⟩
    | _ => none

instance : Marshal ServerInfo where
  layout := .choice false
    [(100, Marshal.layout ServerInfo100), (101, Marshal.layout ServerInfo101)]
  toValue
    | .level100 info => .choice false 100 (toValue info)
    | .level101 info => .choice false 101 (toValue info)
    | .unknown level => .choice false level .null
  ofValue?
    | .choice false level arm =>
      if level = 100 then return .level100 (← ofValue? arm)
      else if level = 101 then return .level101 (← ofValue? arm)
      else some (.unknown level)
    | _ => none

namespace ShareListing

/-- What a client asks with. -/
def ask (level : UInt32) : ShareListing :=
  if level = 0 then level0 (some .empty)
  else if level = 1 then level1 (some .empty)
  else unknown level

def level : ShareListing → UInt32
  | level0 _ => 0
  | level1 _ => 1
  | unknown level => level

/-- The names that are listed. -/
def names : ShareListing → List String
  | level0 info => (info.map (·.entries)).getD [] |>.filterMap fun e => e.name.map (·.value)
  | level1 info => (info.map (·.entries)).getD [] |>.filterMap fun e => e.name.map (·.value)
  | unknown _ => []

end ShareListing

namespace ShareInfo

def level : ShareInfo → UInt32
  | level0 _ => 0
  | level1 _ => 1
  | unknown level => level

/-- No data at a level. -/
def absent (level : UInt32) : ShareInfo :=
  if level = 0 then level0 none
  else if level = 1 then level1 none
  else unknown level

end ShareInfo

def ServerInfo.level : ServerInfo → UInt32
  | level100 _ => 100
  | level101 _ => 101
  | unknown level => level

/-- Asks for all shares. -/
structure ShareEnumRequest where
  serverName : Option Text
  info : ShareListing
  preferredLength : UInt32
  resume : Option UInt32
  deriving DecidableEq, Repr

structure ShareEnumResponse where
  info : ShareListing
  totalEntries : UInt32
  resume : Option UInt32
  status : UInt32
  deriving DecidableEq, Repr

/-- Asks for one share. -/
structure ShareInfoRequest where
  serverName : Option Text
  shareName : Text
  level : UInt32
  deriving DecidableEq, Repr

structure ShareInfoResponse where
  info : ShareInfo
  status : UInt32
  deriving DecidableEq, Repr

/-- Asks for the host itself. -/
structure ServerInfoRequest where
  serverName : Option Text
  level : UInt32
  deriving DecidableEq, Repr

structure ServerInfoResponse where
  info : ServerInfo
  status : UInt32
  deriving DecidableEq, Repr

def ShareEnumRequest.of (serverName : String) (level : UInt32) : ShareEnumRequest :=
  ⟨some (.ofString serverName), .ask level, 0xffffffff, some 0⟩

def ShareInfoRequest.of (serverName shareName : String) (level : UInt32) : ShareInfoRequest :=
  ⟨some (.ofString serverName), .ofString shareName, level⟩

def ServerInfoRequest.of (serverName : String) (level : UInt32) : ServerInfoRequest :=
  ⟨some (.ofString serverName), level⟩

/-- After an unknown level comes data of unknown size, so nothing more is read. -/
instance : Message ShareEnumRequest where
  parameters r :=
    [optional r.serverName, construct r.info, .u32 r.preferredLength, optional r.resume]
  read := do
    let serverName ← readOptional Text
    let info ← readAs ShareListing
    match info with
    | .unknown _ => return ⟨serverName, info, 0, none⟩
    | _ =>
      let preferredLength ← readU32
      return ⟨serverName, info, preferredLength, ← readOptional UInt32⟩

instance : Message ShareEnumResponse where
  parameters r := [construct r.info, .u32 r.totalEntries, optional r.resume, .u32 r.status]
  read := do
    let info ← readAs ShareListing
    let totalEntries ← readU32
    let resume ← readOptional UInt32
    return ⟨info, totalEntries, resume, ← readU32⟩

instance : Message ShareInfoRequest where
  parameters r := [optional r.serverName, construct r.shareName, .u32 r.level]
  read := do
    let serverName ← readOptional Text
    let shareName ← readAs Text
    return ⟨serverName, shareName, ← readU32⟩

instance : Message ShareInfoResponse where
  parameters r := [construct r.info, .u32 r.status]
  read := do
    let info ← readAs ShareInfo
    return ⟨info, ← readU32⟩

instance : Message ServerInfoRequest where
  parameters r := [optional r.serverName, .u32 r.level]
  read := do
    let serverName ← readOptional Text
    return ⟨serverName, ← readU32⟩

instance : Message ServerInfoResponse where
  parameters r := [construct r.info, .u32 r.status]
  read := do
    let info ← readAs ServerInfo
    return ⟨info, ← readU32⟩

end RemoteCall.ServerService
