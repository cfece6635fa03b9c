/-! Shares, and how they are published. -/

namespace RemoteCall

/-- Equality that takes each ASCII letter for its other case. -/
def sameIgnoringCase (a b : String) : Bool := a.toLower == b.toLower

inductive ShareKind
  | disk
  | printer
  | device
  | ipc
  deriving DecidableEq, Repr

namespace ShareKind

def code : ShareKind → UInt32
  | disk => 0
  | printer => 1
  | device => 2
  | ipc => 3

def name : ShareKind → String
  | disk => "DiskTree"
  | printer => "PrintQueue"
  | device => "Device"
  | ipc => "Ipc"

end ShareKind

structure Share where
  name : String
  kind : ShareKind
  /-- An administrative share. -/
  special : Bool
  comment : String
  path : String
  deriving DecidableEq, Repr

namespace Share

/-- A disk share. A name with a final dollar makes it administrative. -/
def disk (name path comment : String) : Share :=
  ⟨name, .disk, name.toList.getLast? == some '$', comment, path⟩

/-- The share that every host carries. -/
def ipc : Share := ⟨"IPC$", .ipc, true, "Remote IPC", ""⟩

/-- The type of a share as it is sent. -/
def typeBits (s : Share) : UInt32 := s.kind.code ||| (if s.special then 0x80000000 else 0)

/-- The shares of a host: its own first, then the given ones that do not take its name. -/
def published (shares : List Share) : List Share :=
  ipc :: shares.filter fun s => !sameIgnoringCase s.name ipc.name

/-- The first share of a name, in any case. -/
def find? (shares : List Share) (name : String) : Option Share :=
  shares.find? fun s => sameIgnoringCase s.name name

/-- Reads a definition of the form `name:path[:comment]`. Only the comment may hold colons. -/
def ofDefinition? (s : String) : Option Share :=
  let (name, afterName) := s.toList.span (· != ':')
  match name, afterName with
  | [], _ => none
  | _, [] => none
  | name, _ :: rest =>
    let (path, afterPath) := rest.span (· != ':')
    some (disk (String.ofList name) (String.ofList path) (String.ofList (afterPath.drop 1)))

end Share

end RemoteCall
