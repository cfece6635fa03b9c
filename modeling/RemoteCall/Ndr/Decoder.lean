import RemoteCall.ByteOrder
import RemoteCall.Error
import RemoteCall.Ndr.Layout
import RemoteCall.Ndr.Value
import RemoteCall.Text.Utf16
/-! Reading parameter data. The fixed part of a construct is read first; each of its pointers that
is not null reserves a slot. The targets follow in the same order, each with its own targets before
the next one, and at the end the slots are bound back into the pointers. Order alone ties a pointer
to its target. A failed read keeps the place it got to. -/

namespace RemoteCall.Ndr

/-- A target that was announced but not yet read. -/
structure Pending where
  id : UInt32
  slot : Nat
  layout : Layout

/-- The place of one target: the id of its pointer, and the value until it is taken. -/
structure Slot where
  id : UInt32
  content : Option (Layout × Value)

abbrev Arena := List Slot

namespace Arena

def fill (a : Arena) (slot : Nat) (layout : Layout) (v : Value) : Arena :=
  a.modify slot fun s => { s with content := some (layout, v) }

/-- Takes the value out of a slot. It is gone even when it has another layout. -/
def take (a : Arena) (slot : Nat) (layout : Layout) : Except Error Value × Arena :=
  match a[slot]? with
  | none => (.error (.malformedData 0 (.noReferent 0)), a)
  | some s =>
    let after := a.modify slot fun s => { s with content := none }
    match s.content with
    | none => (.error (.malformedData 0 (.noReferent s.id)), after)
    | some (found, v) =>
      if found.same layout then (.ok v, after)
      else (.error (.malformedData 0 (.wrongType s.id)), after)

end Arena

structure Decoder where
  rest : List UInt8
  position : Nat
  pending : List Pending
  arena : Arena

def Decoder.ofBytes (data : List UInt8) : Decoder := ⟨data, 0, [], []⟩

abbrev Read := EStateM Error Decoder

def fail {α : Type} (offset : Nat) (defect : DataDefect) : Read α :=
  throw (.malformedData offset defect)

/-- The next `n` bytes. -/
def takeBytes (n : Nat) (item : DataItem) : Read (List UInt8) := fun d =>
  match splitExact? n d.rest with
  | some (taken, rest) => .ok taken { d with rest, position := d.position + n }
  | none => .error (.malformedData d.position (.short item n d.rest.length)) d

def align (alignment : Nat) : Read Unit := do
  let d ← get
  let _ ← takeBytes ((alignment - d.position % alignment) % alignment) .padding

def readU8 : Read UInt8 := do
  return UInt8.ofNat (ByteOrder.little.decode (← takeBytes 1 .u8))

def readU16 : Read UInt16 := do
  align 2
  return ByteOrder.little.read16 (← takeBytes 2 .u16)

def readU32 : Read UInt32 := do
  align 4
  return ByteOrder.little.read32 (← takeBytes 4 .u32)

def readU64 : Read UInt64 := do
  align 4
  return ByteOrder.little.read64 (← takeBytes 8 .u64)

/-- The units that a run of bytes holds, lower byte first. -/
def unitsOfBytes : List UInt8 → List UInt16
  | a :: b :: rest => ByteOrder.little.read16 [a, b] :: unitsOfBytes rest
  | _ => []

/-- The text of a run of units. A final null unit is always taken for the terminator. -/
def Text.ofUnits? (units : List UInt16) : Option Text :=
  let terminated := units.getLast? == some 0
  let body := if terminated then units.dropLast else units
  (Utf16.decode body).map fun cs => ⟨String.ofList cs, terminated⟩

def readText : Read Text := do
  let start := (← get).position
  let max ← readU32
  let offset ← readU32
  let actual ← readU32
  if offset.toNat + actual.toNat > max.toNat then
    fail start (.counts offset.toNat actual.toNat max.toNat)
  let raw ← takeBytes (2 * actual.toNat) .characters
  match Text.ofUnits? (unitsOfBytes raw) with
  | some t => return t
  | none => fail start .loneSurrogate

/-- A pointer of a construct. Its target waits for the end of the construct. -/
def readPointer (target : Layout) : Read Value := do
  let id ← readU32
  if id = 0 then return .null
  let d ← get
  let slot := d.arena.length
  set { d with
    arena := d.arena ++ [Slot.mk id none]
    pending := d.pending ++ [Pending.mk id slot target] }
  return .deferred slot

/-- The same read `n` times. -/
def readTimes {α : Type} (read : Read α) : Nat → Read (List α)
  | 0 => return []
  | n + 1 => do
    let a ← read
    let as ← readTimes read n
    return a :: as

def readArray (item : Read Value) : Read Value := do
  let count ← readU32
  return .array (← readTimes item count.toNat)

/-- A level and the pointer that belongs to it. -/
def readChoice (twice : Bool) (arms : List (UInt32 × Layout)) : Read Value := do
  if twice then
    let _ ← readU32
  let level ← readU32
  match Layout.arm? arms level with
  | some target => return .choice twice level (← readPointer target)
  | none =>
    let offset := (← get).position
    let id ← readU32
    if !twice && id != 0 then
      fail offset (.unknownArm level)
    return .choice twice level .null

namespace Layout

mutual

/-- Reads the fixed part of a value. -/
def read (g : Grammar) : Layout → Read Value
  | .u8 => return .u8 (← readU8)
  | .u16 => return .u16 (← readU16)
  | .u32 => return .u32 (← readU32)
  | .text => return .text (← readText)
  | .array item => readArray (item.read g)
  | .record members => return .record (← readAll g members)
  | .pointer target => readPointer target
  | .link name => readPointer (g name)
  | .choice twice arms => readChoice twice arms

def readAll (g : Grammar) : List Layout → Read (List Value)
  | [] => return []
  | l :: ls => do
    let v ← l.read g
    let vs ← readAll g ls
    return v :: vs

end

mutual

/-- Puts the targets that `resolve` finds into the pointers of a value. -/
def bindWith (g : Grammar) (resolve : Layout → Nat → Read Value) : Layout → Value → Read Value
  | .pointer target => fun
    | .deferred slot => return .pointer (← resolve target slot)
    | v => return v
  | .link name => fun
    | .deferred slot => return .pointer (← resolve (g name) slot)
    | v => return v
  | .choice _ arms => fun
    | .choice twice level (.deferred slot) =>
      match arm? arms level with
      | some target => return .choice twice level (.pointer (← resolve target slot))
      | none => return .choice twice level (.deferred slot)
    | v => return v
  | .array item => fun
    | .array vs => return .array (← vs.mapM (item.bindWith g resolve))
    | v => return v
  | .record members => fun
    | .record vs => return .record (← bindAllWith g resolve members vs)
    | v => return v
  | _ => fun v => return v

def bindAllWith (g : Grammar) (resolve : Layout → Nat → Read Value) :
    List Layout → List Value → Read (List Value)
  | l :: ls => fun
    | v :: vs => do
      let v ← l.bindWith g resolve v
      let vs ← bindAllWith g resolve ls vs
      return v :: vs
    | [] => return []
  | [] => fun vs => return vs

end

end Layout

/-- Takes a target out of its slot. -/
def takeSlot (layout : Layout) (slot : Nat) : Read Value := fun d =>
  match d.arena.take slot layout with
  | (.ok v, arena) => .ok v { d with arena }
  | (.error e, arena) => .error e { d with arena }

/-- Binds the pointers of a value, and those of their targets, down to a depth. -/
def bindTo (g : Grammar) : (depth : Nat) → Layout → Value → Read Value
  | 0 => fun _ v => return v
  | depth + 1 => Layout.bindWith g fun target slot => do
    bindTo g depth target (← takeSlot target slot)

/-- Binds all pointers of a value. Each step down empties a slot, so the slots bound the depth. -/
def bind (g : Grammar) (layout : Layout) (v : Value) : Read Value := do
  bindTo g ((← get).arena.length + 1) layout v

/-- Errors in the data of a target tell which pointer it belongs to. -/
def inReferent (id : UInt32) : Error → Error
  | .malformedData offset defect => .malformedData offset (.inReferent id defect)
  | e => e

/-- Runs a read with no targets pending, and gives those it announced. -/
def collecting {α : Type} (read : Read α) : Read (α × List Pending) := do
  let outer := (← get).pending
  modify fun d => { d with pending := [] }
  let a ← read
  let announced := (← get).pending
  modify fun d => { d with pending := outer }
  return (a, announced)

/-- Reads a target and, down to a depth, the targets that follow it. -/
def readTarget (g : Grammar) : (depth : Nat) → Pending → Read Unit
  | 0, _ => return ()
  | depth + 1, p => do
    let (v, nested) ← collecting fun d =>
      match p.layout.read g d with
      | .ok v d => .ok v d
      | .error e d => .error (inReferent p.id e) d
    nested.forM (readTarget g depth)
    modify fun d => { d with arena := d.arena.fill p.slot p.layout v }

/-- Reads targets in order. Each step down has read a pointer, so the bytes bound the depth. -/
def readTargets (g : Grammar) (targets : List Pending) : Read Unit := do
  let d ← get
  targets.forM (readTarget g (d.rest.length + 1))

/-- A construct: the fixed part, its targets, and what binds them. -/
def readBound {α : Type} (g : Grammar) (layout : Layout) (bind : Value → Read α) : Read α := do
  let (v, targets) ← collecting (layout.read g)
  readTargets g targets
  bind v

def readConstruct (g : Grammar) (layout : Layout) : Read Value :=
  readBound g layout (bind g layout)

/-- A pointer parameter, whose target follows it at once. -/
def readUnique (g : Grammar) (layout : Layout) : Read (Option Value) := do
  let id ← readU32
  if id = 0 then return none
  return some (← readConstruct g layout)

end RemoteCall.Ndr
