import RemoteCall.Pipe.Basic
/-! The pipes of a host. Each open makes a new instance; its number is never used again. An instance
that is closed stays with whoever holds it. -/

namespace RemoteCall

structure Instance where
  pipe : Pipe
  isOpen : Bool

structure PipeManager where
  registry : Registry
  /-- Every instance that was ever opened, in order. -/
  instances : List Instance

namespace PipeManager

def of (r : Registry) : PipeManager := ⟨r, []⟩

/-- Opens the pipe of a path. -/
def openPipe (m : PipeManager) (path : String) : Except Error Pipe × PipeManager :=
  let name := pipeNameOf path
  match m.registry.byPipe? name with
  | none => (.error (.invalidParameter (.noPipe path)), m)
  | some s =>
    let pipe := Pipe.of (m.instances.length + 1) name.toLower (.ofService s)
    (.ok pipe, { m with instances := m.instances ++ [⟨pipe, true⟩] })

def pipeExists (m : PipeManager) (path : String) : Bool := (m.registry.byPipe? path).isSome

def find? (m : PipeManager) (id : Nat) : Option Instance := m.instances.find? (·.pipe.id == id)

def modify (m : PipeManager) (id : Nat) (f : Instance → Instance) : PipeManager :=
  { m with instances := m.instances.map fun i => if i.pipe.id = id then f i else i }

def setPipe (m : PipeManager) (p : Pipe) : PipeManager := m.modify p.id fun i => { i with pipe := p }

/-- Whether a number belongs to an open instance. -/
def isOpen (m : PipeManager) (id : Nat) : Bool := (m.find? id).any (·.isOpen)

/-- Closes an instance and tells whether it was open. -/
def closePipe (m : PipeManager) (id : Nat) : Bool × PipeManager :=
  if m.isOpen id then
    (true, m.modify id fun i => { pipe := i.pipe.discard, isOpen := false })
  else (false, m)

/-- The numbers of the open instances. -/
def openIds (m : PipeManager) : List Nat :=
  (m.instances.filter (·.isOpen)).map (·.pipe.id)

def openCount (m : PipeManager) : Nat := m.openIds.length

def pipeNames (m : PipeManager) : List String := m.registry.pipeNames

end PipeManager

end RemoteCall
