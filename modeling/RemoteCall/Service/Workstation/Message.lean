import RemoteCall.Ndr.Marshal
/-! Parameters of the workstation service. -/

namespace RemoteCall.WorkstationService

open Ndr

structure WorkstationInfo100 where
  platform : UInt32
  computerName : Option Text
  lanGroup : Option Text
  major : UInt32
  minor : UInt32
  deriving DecidableEq, Repr

structure WorkstationInfo101 where
  platform : UInt32
  computerName : Option Text
  lanGroup : Option Text
  major : UInt32
  minor : UInt32
  lanRoot : Option Text
  deriving DecidableEq, Repr

/-- A workstation at a level. -/
inductive WorkstationInfo
  | level100 (info : Option WorkstationInfo100)
  | level101 (info : Option WorkstationInfo101)
  | unknown (level : UInt32)
  deriving DecidableEq, Repr

instance : Marshal WorkstationInfo100 where
  layout := .record
    [.u32, Marshal.layout (Option Text), Marshal.layout (Option Text), .u32, .u32]
  toValue i := .record
    [.u32 i.platform, toValue i.computerName, toValue i.lanGroup, .u32 i.major, .u32 i.minor]
  ofValue?
    | .record [.u32 platform, computerName, lanGroup, .u32 major, .u32 minor] =>
      return ⟨platform, ← ofValue? computerName, ← ofValue? lanGroup, major, minor⟩
    | _ => none

instance : Marshal WorkstationInfo101 where
  layout := .record
    [.u32, Marshal.layout (Option Text), Marshal.layout (Option Text), .u32, .u32,
      Marshal.layout (Option Text)]
  toValue i := .record
    [.u32 i.platform, toValue i.computerName, toValue i.lanGroup, .u32 i.major, .u32 i.minor,
      toValue i.lanRoot]
  ofValue?
    | .record [.u32 platform, computerName, lanGroup, .u32 major, .u32 minor, lanRoot] =>
      return ⟨platform, ← ofValue? computerName, ← ofValue? lanGroup, major, minor,
        ← ofValue? lanRoot⟩
    | _ => none

instance : Marshal WorkstationInfo where
  layout := .choice false
    [(100, Marshal.layout WorkstationInfo100), (101, Marshal.layout WorkstationInfo101)]
  toValue
    | .level100 info => .choice false 100 (toValue info)
    | .level101 info => .choice false 101 (toValue info)
    | .unknown level => .choice false level .null
  ofValue?
    | .choice false level arm =>
      if level = 100 then return .level100 (← ofValue? arm)
      else if level = 101 then return .level101 (← ofValue? arm)
      else some (.unknown level)
    | _ => none

namespace WorkstationInfo

def level : WorkstationInfo → UInt32
  | level100 _ => 100
  | level101 _ => 101
  | unknown level => level

def computerName : WorkstationInfo → Option String
  | level100 info => info.bind fun i => i.computerName.map (·.value)
  | level101 info => info.bind fun i => i.computerName.map (·.value)
  | unknown _ => none

def lanGroup : WorkstationInfo → Option String
  | level100 info => info.bind fun i => i.lanGroup.map (·.value)
  | level101 info => info.bind fun i => i.lanGroup.map (·.value)
  | unknown _ => none

end WorkstationInfo

structure InfoRequest where
  serverName : Option Text
  level : UInt32
  deriving DecidableEq, Repr

structure InfoResponse where
  info : WorkstationInfo
  status : UInt32
  deriving DecidableEq, Repr

def InfoRequest.of (serverName : String) (level : UInt32) : InfoRequest :=
  ⟨some (.ofString serverName), level⟩

instance : Message InfoRequest where
  parameters r := [optional r.serverName, .u32 r.level]
  read := do
    let serverName ← readOptional Text
    return ⟨serverName, ← readU32⟩

instance : Message InfoResponse where
  parameters r := [construct r.info, .u32 r.status]
  read := do
    let info ← readAs WorkstationInfo
    return ⟨info, ← readU32⟩

end RemoteCall.WorkstationService
