import RemoteCall.Ndr.Decoder

/-! Reading a fixed part does not depend on what was deferred before. Slots are numbered on from
those in the arena, and that is all the difference that an arena makes. -/

namespace RemoteCall.Ndr

/-! ## Slots of a value -/

namespace Value

mutual

/-- Puts something into the place of each deferred pointer of a fixed part. -/
def subst (f : Nat → Value) : Value → Value
  | .deferred slot => f slot
  | .array items => .array (substAll f items)
  | .record members => .record (substAll f members)
  | .choice twice level arm => .choice twice level (arm.subst f)
  | v => v

def substAll (f : Nat → Value) : List Value → List Value
  | [] => []
  | v :: vs => v.subst f :: substAll f vs

end

/-- The slots as they are numbered after `n` others. -/
def shift (n : Nat) : Value → Value := subst fun slot => .deferred (n + slot)

mutual

theorem subst_shift (f : Nat → Value) (n : Nat) :
    ∀ v : Value, (v.shift n).subst f = v.subst fun slot => f (n + slot)
  | .deferred _ => rfl
  | .array items => congrArg Value.array (substAll_shift f n items)
  | .record members => congrArg Value.record (substAll_shift f n members)
  | .choice twice level arm => congrArg (Value.choice twice level) (subst_shift f n arm)
  | .u8 _ | .u16 _ | .u32 _ | .u64 _ | .bytes _ | .text _ | .null | .pointer _ | .unique _
  | .construct _ => rfl

theorem substAll_shift (f : Nat → Value) (n : Nat) :
    ∀ vs : List Value, substAll f (substAll (fun slot => .deferred (n + slot)) vs) =
      substAll (fun slot => f (n + slot)) vs
  | [] => rfl
  | v :: vs => by
    rw [substAll, substAll, substAll, substAll_shift f n vs]
    exact congrArg (· :: _) (subst_shift f n v)

end

theorem substAll_eq_map (f : Nat → Value) (vs : List Value) :
    substAll f vs = vs.map (subst f) := by
  induction vs with
  | nil => rfl
  | cons v vs ih => rw [substAll, ih, List.map_cons]

end Value

def Pending.shift (n : Nat) (p : Pending) : Pending := { p with slot := n + p.slot }

/-! ## Reads under an arena -/

/-- The same place, with an arena below. -/
def Decoder.under (d : Decoder) (arena : Arena) : Decoder :=
  ⟨d.rest, d.position, d.pending.map (·.shift arena.length), arena ++ d.arena⟩

/-- What a read gives with an arena below. -/
def underResult {α : Type} (shift : Nat → α → α) (arena : Arena) :
    EStateM.Result Error Decoder α → EStateM.Result Error Decoder α
  | .ok a d => .ok (shift arena.length a) (d.under arena)
  | .error e d => .error e (d.under arena)

/-- An arena below does no more than to shift the slots. -/
def Uniform {α : Type} (shift : Nat → α → α) (r : Read α) : Prop :=
  ∀ arena d, r (d.under arena) = underResult shift arena (r d)

/-- What is read holds no slots. -/
abbrev Plain {α : Type} (r : Read α) : Prop := Uniform (fun _ a => a) r

section Combinators

variable {α β : Type} {shift : Nat → α → α} {shift' : Nat → β → β} {r : Read α} {f : α → Read β}

theorem Read.bind_eq (r : Read α) (f : α → Read β) (d : Decoder) :
    (r >>= f) d = match r d with
      | .ok a d => f a d
      | .error e d => .error e d := by
  change EStateM.bind r f d = _
  unfold EStateM.bind
  cases r d <;> rfl

theorem Uniform.pure (a : α) (h : ∀ n, shift n a = a) : Uniform shift (pure a : Read α) := by
  intro arena d
  change EStateM.Result.ok a (d.under arena) = .ok (shift arena.length a) (d.under arena)
  rw [h]

theorem Uniform.bind (hr : Uniform shift r)
    (hf : ∀ a arena d,
      f (shift arena.length a) (d.under arena) = underResult shift' arena (f a d)) :
    Uniform shift' (r >>= f) := by
  intro arena d
  rw [Read.bind_eq, Read.bind_eq, hr arena d]
  cases r d with
  | ok a d' => exact hf a arena d'
  | error e d' => rfl

/-- Of a read whose result holds no slots. -/
theorem Plain.bind (hr : Plain r) (hf : ∀ a, Uniform shift' (f a)) : Uniform shift' (r >>= f) :=
  Uniform.bind hr fun a => hf a

theorem Uniform.map {k : α → β} (hr : Uniform shift r)
    (hk : ∀ n a, shift' n (k a) = k (shift n a)) :
    Uniform shift' (do return k (← r)) := by
  refine Uniform.bind hr fun a arena d => ?_
  change EStateM.Result.ok (k (shift arena.length a)) (d.under arena)
    = .ok (shift' arena.length (k a)) (d.under arena)
  rw [hk]

/-- A read that only looks at its position. -/
theorem Uniform.position {f : Nat → Read α} (hf : ∀ n, Uniform shift (f n)) :
    Uniform shift (do f (← get).position) := by
  intro arena d
  exact hf d.position arena d

end Combinators

/-! ## Each read -/

theorem plain_fail {α : Type} (offset : Nat) (defect : DataDefect) :
    Plain (fail offset defect : Read α) := by
  intro arena d
  rfl

theorem plain_takeBytes (n : Nat) (item : DataItem) : Plain (takeBytes n item) := by
  intro arena d
  simp only [takeBytes, Decoder.under]
  cases splitExact? n d.rest with
  | none => rfl
  | some parts => rfl

theorem plain_align (alignment : Nat) : Plain (align alignment) := by
  refine Uniform.position (f := fun n => do
    let _ ← takeBytes ((alignment - n % alignment) % alignment) .padding) fun n => ?_
  exact (plain_takeBytes _ _).bind fun _ => Uniform.pure _ fun _ => rfl

theorem plain_readU8 : Plain readU8 := Uniform.map (plain_takeBytes 1 .u8) fun _ _ => rfl

theorem plain_readU16 : Plain readU16 :=
  (plain_align 2).bind fun _ => Uniform.map (plain_takeBytes 2 .u16) fun _ _ => rfl

theorem plain_readU32 : Plain readU32 :=
  (plain_align 4).bind fun _ => Uniform.map (plain_takeBytes 4 .u32) fun _ _ => rfl

/-- The text of that many units. -/
def readCharacters (start : Nat) (count : UInt32) : Read Text := do
  let raw ← takeBytes (2 * count.toNat) .characters
  match Text.ofUnits? (unitsOfBytes raw) with
  | some t => return t
  | none => fail start .loneSurrogate

/-- A string that starts there. -/
def readTextFrom (start : Nat) : Read Text := do
  let max ← readU32
  let offset ← readU32
  let actual ← readU32
  if offset.toNat + actual.toNat > max.toNat then
    fail start (.counts offset.toNat actual.toNat max.toNat)
  readCharacters start actual

theorem readText_eq : readText = (do readTextFrom (← get).position) := rfl

theorem plain_readCharacters (start : Nat) (count : UInt32) :
    Plain (readCharacters start count) := by
  refine (plain_takeBytes _ _).bind fun raw => ?_
  cases Text.ofUnits? (unitsOfBytes raw) with
  | none => exact plain_fail _ _
  | some t => exact Uniform.pure _ fun _ => rfl

theorem plain_readText : Plain readText := by
  rw [readText_eq]
  refine Uniform.position fun start => plain_readU32.bind fun max =>
    plain_readU32.bind fun offset => plain_readU32.bind fun actual => ?_
  dsimp only
  split
  · exact (plain_fail _ _).bind fun _ => plain_readCharacters start actual
  · exact plain_readCharacters start actual

/-- The target of a pointer with that id goes into the slot after those of the arena. -/
def announce (target : Layout) (id : UInt32) : Read Value := do
  if id = 0 then return .null
  let d ← get
  let slot := d.arena.length
  set { d with
    arena := d.arena ++ [Slot.mk id none]
    pending := d.pending ++ [Pending.mk id slot target] }
  return .deferred slot

theorem readPointer_eq (target : Layout) : readPointer target = readU32 >>= announce target := rfl

theorem announce_zero (target : Layout) : announce target 0 = pure .null := if_pos rfl

theorem announce_of_ne {id : UInt32} (h : id ≠ 0) (target : Layout) (d : Decoder) :
    announce target id d = .ok (.deferred d.arena.length) { d with
      arena := d.arena ++ [Slot.mk id none]
      pending := d.pending ++ [Pending.mk id d.arena.length target] } := by
  unfold announce
  rw [if_neg h]
  rfl

theorem uniform_readPointer (target : Layout) : Uniform Value.shift (readPointer target) := by
  rw [readPointer_eq]
  refine plain_readU32.bind fun id => ?_
  by_cases hid : id = 0
  · rw [hid, announce_zero]
    exact Uniform.pure _ fun _ => rfl
  · intro arena d
    rw [announce_of_ne hid, announce_of_ne hid]
    simp only [underResult, Decoder.under, Value.shift, Value.subst, Pending.shift,
      List.length_append, List.map_append, List.map_cons, List.map_nil, List.append_assoc]

theorem uniform_readTimes {read : Read Value} (h : Uniform Value.shift read) (n : Nat) :
    Uniform (fun k vs => vs.map (Value.shift k)) (readTimes read n) := by
  induction n with
  | zero => exact Uniform.pure [] fun _ => rfl
  | succ n ih =>
    refine Uniform.bind h fun v arena d => ?_
    rw [Read.bind_eq, Read.bind_eq, ih arena d]
    cases readTimes read n d with
    | ok vs d' => rfl
    | error e d' => rfl

theorem uniform_readArray {item : Read Value} (h : Uniform Value.shift item) :
    Uniform Value.shift (readArray item) := by
  refine plain_readU32.bind fun count => Uniform.map (uniform_readTimes h count.toNat) ?_
  intro n vs
  exact congrArg Value.array (Value.substAll_eq_map _ vs)

/-- The pointer of an unknown level has nothing to refer to. -/
def dropArm (twice : Bool) (level : UInt32) (offset : Nat) (id : UInt32) : Read Value := do
  if !twice && id != 0 then
    fail offset (.unknownArm level)
  return .choice twice level .null

/-- The pointer that belongs to a level. -/
def readArm (twice : Bool) (arms : List (UInt32 × Layout)) (level : UInt32) : Read Value :=
  match Layout.arm? arms level with
  | some target => do return .choice twice level (← readPointer target)
  | none => do
    let d ← get
    readU32 >>= dropArm twice level d.position

/-- A level that may be written twice. -/
def readLevel (twice : Bool) : Read UInt32 :=
  if twice then readU32 >>= fun _ => readU32 else readU32

theorem readChoice_eq (twice : Bool) (arms : List (UInt32 × Layout)) :
    readChoice twice arms = readLevel twice >>= readArm twice arms := by
  cases twice with
  | false => rfl
  | true => exact (bind_assoc readU32 (fun _ => readU32) (readArm true arms)).symm

theorem plain_readLevel (twice : Bool) : Plain (readLevel twice) := by
  cases twice with
  | false => exact plain_readU32
  | true => exact plain_readU32.bind fun _ => plain_readU32

theorem uniform_dropArm (twice : Bool) (level : UInt32) (offset : Nat) (id : UInt32) :
    Uniform Value.shift (dropArm twice level offset id) := by
  unfold dropArm
  dsimp only
  split
  · exact (plain_fail _ _).bind fun _ => Uniform.pure _ fun _ => rfl
  · exact Uniform.pure _ fun _ => rfl

theorem uniform_readArm (twice : Bool) (arms : List (UInt32 × Layout)) (level : UInt32) :
    Uniform Value.shift (readArm twice arms level) := by
  unfold readArm
  cases Layout.arm? arms level with
  | some target => exact Uniform.map (uniform_readPointer target) fun _ _ => rfl
  | none =>
    have hdrop : ∀ offset, Uniform Value.shift (readU32 >>= dropArm twice level offset) :=
      fun offset => plain_readU32.bind fun id => uniform_dropArm twice level offset id
    exact Uniform.position hdrop

theorem uniform_readChoice (twice : Bool) (arms : List (UInt32 × Layout)) :
    Uniform Value.shift (readChoice twice arms) := by
  rw [readChoice_eq]
  exact (plain_readLevel twice).bind fun level => uniform_readArm twice arms level

namespace Layout

mutual

theorem uniform_read (g : Grammar) : ∀ l : Layout, Uniform Value.shift (l.read g)
  | .u8 => Uniform.map plain_readU8 fun _ _ => rfl
  | .u16 => Uniform.map plain_readU16 fun _ _ => rfl
  | .u32 => Uniform.map plain_readU32 fun _ _ => rfl
  | .text => Uniform.map plain_readText fun _ _ => rfl
  | .array item => uniform_readArray (uniform_read g item)
  | .record members => Uniform.map (uniform_readAll g members) fun _ vs =>
    congrArg Value.record (Value.substAll_eq_map _ vs)
  | .pointer target => uniform_readPointer target
  | .link name => uniform_readPointer (g name)
  | .choice twice arms => uniform_readChoice twice arms

theorem uniform_readAll (g : Grammar) :
    ∀ ls : List Layout, Uniform (fun k vs => vs.map (Value.shift k)) (readAll g ls)
  | [] => Uniform.pure [] fun _ => rfl
  | l :: ls => by
    refine Uniform.bind (uniform_read g l) fun v arena d => ?_
    rw [Read.bind_eq, Read.bind_eq, uniform_readAll g ls arena d]
    cases readAll g ls d with
    | ok vs d' => rfl
    | error e d' => rfl

end

end Layout

end RemoteCall.Ndr
