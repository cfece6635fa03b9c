import RemoteCall.Proofs.Ndr.Uniform

/-! What a fixed part is once it has been read: every pointer that is not null is deferred, the
slots go up by one in the order of the pointers, and for each of them a target is announced. Each
took at least the four bytes of its id. -/

namespace RemoteCall.Ndr

/-! ## Open values -/

mutual

/-- A fixed part of a layout. Its deferred pointers have the slots from `slot` on, in order, and
refer to the layouts `targets`. -/
inductive Open (g : Grammar) : Layout → Value → (slot : Nat) → (targets : List Layout) → Prop
  | u8 (n : UInt8) (slot : Nat) : Open g .u8 (.u8 n) slot []
  | u16 (n : UInt16) (slot : Nat) : Open g .u16 (.u16 n) slot []
  | u32 (n : UInt32) (slot : Nat) : Open g .u32 (.u32 n) slot []
  | text (t : Text) (slot : Nat) : Open g .text (.text t) slot []
  | array {item : Layout} {vs : List Value} {slot : Nat} {targets : List Layout}
      (h : OpenAll g (List.replicate vs.length item) vs slot targets) :
      Open g (.array item) (.array vs) slot targets
  | record {ls : List Layout} {vs : List Value} {slot : Nat} {targets : List Layout}
      (h : OpenAll g ls vs slot targets) : Open g (.record ls) (.record vs) slot targets
  | null (target : Layout) (slot : Nat) : Open g (.pointer target) .null slot []
  | deferred (target : Layout) (slot : Nat) :
      Open g (.pointer target) (.deferred slot) slot [target]
  | linkNull (name : String) (slot : Nat) : Open g (.link name) .null slot []
  | linkDeferred (name : String) (slot : Nat) : Open g (.link name) (.deferred slot) slot [g name]
  | choiceNull (twice : Bool) (arms : List (UInt32 × Layout)) (level : UInt32) (slot : Nat) :
      Open g (.choice twice arms) (.choice twice level .null) slot []
  | choiceDeferred (twice : Bool) {arms : List (UInt32 × Layout)} {level : UInt32} (slot : Nat)
      {target : Layout} (h : Layout.arm? arms level = some target) :
      Open g (.choice twice arms) (.choice twice level (.deferred slot)) slot [target]

/-- The same of values in a row. -/
inductive OpenAll (g : Grammar) : List Layout → List Value → Nat → List Layout → Prop
  | nil (slot : Nat) : OpenAll g [] [] slot []
  | cons {l : Layout} {v : Value} {ls : List Layout} {vs : List Value} {slot : Nat}
      {targets rest : List Layout} (h : Open g l v slot targets)
      (hrest : OpenAll g ls vs (slot + targets.length) rest) :
      OpenAll g (l :: ls) (v :: vs) slot (targets ++ rest)

end

/-! ## Progress -/

/-- Targets as they are announced, in the slots from `slot` on. -/
def announced (slot : Nat) : List (UInt32 × Layout) → List Pending
  | [] => []
  | (id, l) :: ts => ⟨id, slot, l⟩ :: announced (slot + 1) ts

theorem announced_append (slot : Nat) (ts us : List (UInt32 × Layout)) :
    announced slot (ts ++ us) = announced slot ts ++ announced (slot + ts.length) us := by
  induction ts generalizing slot with
  | nil => rfl
  | cons t ts ih =>
    rw [List.cons_append, announced, announced, List.cons_append, ih, List.length_cons,
      show slot + (ts.length + 1) = slot + 1 + ts.length by omega]

/-- From one place to a later one, over at least `n` bytes. -/
def Moves (d d' : Decoder) (n : Nat) : Prop :=
  ∃ bs, d.rest = bs ++ d'.rest ∧ d'.position = d.position + bs.length ∧ n ≤ bs.length

theorem Moves.trans {d d' d'' : Decoder} {m n : Nat} (h : Moves d d' m) (h' : Moves d' d'' n) :
    Moves d d'' (m + n) := by
  obtain ⟨bs, hrest, hposition, hlength⟩ := h
  obtain ⟨cs, hrest', hposition', hlength'⟩ := h'
  refine ⟨bs ++ cs, ?_, ?_, ?_⟩
  · rw [hrest, hrest', List.append_assoc]
  · rw [hposition', hposition, List.length_append, Nat.add_assoc]
  · rw [List.length_append]
    omega

theorem Moves.weaken {d d' : Decoder} {m n : Nat} (h : Moves d d' m) (hle : n ≤ m) :
    Moves d d' n := by
  obtain ⟨bs, hrest, hposition, hlength⟩ := h
  exact ⟨bs, hrest, hposition, Nat.le_trans hle hlength⟩

/-- The targets `ts` were announced on the way, and their slots are empty. -/
structure Progress (d d' : Decoder) (ts : List (UInt32 × Layout)) : Prop where
  moves : Moves d d' (4 * ts.length)
  pending : d'.pending = d.pending ++ announced d.arena.length ts
  arena : d'.arena = d.arena ++ ts.map fun t => ⟨t.1, none⟩

theorem Progress.refl (d : Decoder) : Progress d d [] :=
  ⟨⟨[], rfl, rfl, Nat.le_refl _⟩, (List.append_nil _).symm, (List.append_nil _).symm⟩

theorem Progress.trans {d d' d'' : Decoder} {ts us : List (UInt32 × Layout)}
    (h : Progress d d' ts) (h' : Progress d' d'' us) : Progress d d'' (ts ++ us) := by
  have hlength : d'.arena.length = d.arena.length + ts.length := by
    rw [h.arena, List.length_append, List.length_map]
  refine ⟨(h.moves.trans h'.moves).weaken ?_, ?_, ?_⟩
  · rw [List.length_append]
    omega
  · rw [h'.pending, h.pending, hlength, List.append_assoc, announced_append]
  · rw [h'.arena, h.arena, List.append_assoc, List.map_append]

theorem Progress.length_arena {d d' : Decoder} {ts : List (UInt32 × Layout)}
    (h : Progress d d' ts) : d'.arena.length = d.arena.length + (ts.map (·.2)).length := by
  rw [h.arena, List.length_append, List.length_map, List.length_map]

/-! ## Plain reads -/

/-- A read that announces nothing, over at least `n` bytes. -/
def Spends {α : Type} (n : Nat) (r : Read α) : Prop :=
  ∀ (d d' : Decoder) (a : α), r d = .ok a d' →
    Moves d d' n ∧ d'.pending = d.pending ∧ d'.arena = d.arena

theorem Read.bind_ok_iff {α β : Type} {r : Read α} {f : α → Read β} {d d'' : Decoder} {b : β} :
    (r >>= f) d = .ok b d'' ↔ ∃ a d', r d = .ok a d' ∧ f a d' = .ok b d'' := by
  rw [Read.bind_eq]
  cases r d with
  | ok a d' =>
    constructor
    · intro h
      exact ⟨a, d', rfl, h⟩
    · rintro ⟨a, d', ⟨⟩, h⟩
      exact h
  | error e d' =>
    constructor
    · intro h
      cases h
    · rintro ⟨a, d', h, -⟩
      cases h

section Plain

variable {α β : Type} {r : Read α} {f : α → Read β} {m n : Nat}

theorem Spends.pure (a : α) : Spends 0 (pure a : Read α) := by
  intro d d' b h
  cases h
  exact ⟨⟨[], rfl, rfl, Nat.le_refl _⟩, rfl, rfl⟩

theorem Spends.fail (offset : Nat) (defect : DataDefect) :
    Spends n (fail offset defect : Read α) := by
  intro d d' a h
  cases h

theorem Spends.bind (hr : Spends m r) (hf : ∀ a, Spends n (f a)) : Spends (m + n) (r >>= f) := by
  intro d d'' b h
  obtain ⟨a, d', ha, hb⟩ := Read.bind_ok_iff.mp h
  obtain ⟨hmoves, hpending, harena⟩ := hr d d' a ha
  obtain ⟨hmoves', hpending', harena'⟩ := hf a d' d'' b hb
  exact ⟨hmoves.trans hmoves', hpending'.trans hpending, harena'.trans harena⟩

theorem Spends.weaken (hr : Spends m r) (hle : n ≤ m) : Spends n r := by
  intro d d' a h
  obtain ⟨hmoves, hrest⟩ := hr d d' a h
  exact ⟨hmoves.weaken hle, hrest⟩

theorem takeBytes_of_ok {n : Nat} {item : DataItem} {d d' : Decoder} {bs : List UInt8}
    (h : takeBytes n item d = .ok bs d') :
    bs.length = n ∧ d.rest = bs ++ d'.rest ∧
      d' = { d with rest := d'.rest, position := d.position + bs.length } := by
  rw [takeBytes, splitExact?_eq] at h
  by_cases hn : n ≤ d.rest.length
  · simp only [hn, if_true] at h
    cases h
    have hlength : (d.rest.take n).length = n := List.length_take_of_le hn
    exact ⟨hlength, (List.take_append_drop n d.rest).symm, by rw [hlength]⟩
  · simp [hn] at h

theorem spends_takeBytes (n : Nat) (item : DataItem) : Spends n (takeBytes n item) := by
  intro d d' bs h
  obtain ⟨hlength, hrest, hd⟩ := takeBytes_of_ok h
  rw [hd]
  exact ⟨⟨bs, hrest, rfl, Nat.le_of_eq hlength.symm⟩, rfl, rfl⟩

theorem spends_align (alignment : Nat) : Spends 0 (align alignment) := by
  intro d d' a h
  have htake := (spends_takeBytes ((alignment - d.position % alignment) % alignment) .padding).bind
    fun _ => Spends.pure ()
  exact htake.weaken (Nat.zero_le _) d d' a h

theorem spends_readU8 : Spends 1 readU8 := (spends_takeBytes 1 .u8).bind fun _ => Spends.pure _

theorem spends_readU16 : Spends 2 readU16 :=
  ((spends_align 2).bind fun _ => (spends_takeBytes 2 .u16).bind fun _ => Spends.pure _).weaken
    (Nat.le_refl 2)

theorem spends_readU32 : Spends 4 readU32 :=
  ((spends_align 4).bind fun _ => (spends_takeBytes 4 .u32).bind fun _ => Spends.pure _).weaken
    (Nat.le_refl 4)

theorem spends_readCharacters (start : Nat) (count : UInt32) :
    Spends 0 (readCharacters start count) := by
  refine ((spends_takeBytes _ _).bind (n := 0) fun raw => ?_).weaken (Nat.zero_le _)
  cases Text.ofUnits? (unitsOfBytes raw) with
  | none => exact Spends.fail _ _
  | some t => exact Spends.pure _

theorem spends_readTextFrom (start : Nat) : Spends 12 (readTextFrom start) := by
  refine spends_readU32.bind (n := 8) fun max => spends_readU32.bind (n := 4) fun offset =>
    spends_readU32.bind (n := 0) fun actual => ?_
  dsimp only
  split
  · exact (Spends.fail (n := 0) _ _).bind fun _ => spends_readCharacters start actual
  · exact spends_readCharacters start actual

theorem spends_readText : Spends 12 readText := by
  intro d d' t h
  exact spends_readTextFrom d.position d d' t h

theorem spends_readLevel (twice : Bool) : Spends 4 (readLevel twice) := by
  cases twice with
  | false => exact spends_readU32
  | true => exact (spends_readU32.bind fun _ => spends_readU32).weaken (Nat.le_add_left 4 4)

end Plain

/-! ## Reads of fixed parts -/

/-- A read that announces targets, which are related to its result and to the first slot. -/
def Announces {α : Type} (P : α → Nat → List Layout → Prop) (r : Read α) : Prop :=
  ∀ (d d' : Decoder) (a : α), r d = .ok a d' →
    ∃ ts, Progress d d' ts ∧ P a d.arena.length (ts.map (·.2))

section Announcing

variable {α β : Type} {P : α → Nat → List Layout → Prop} {Q : β → Nat → List Layout → Prop}
  {r : Read α} {n : Nat}

theorem Spends.progress {d d' : Decoder} {a : α} (hr : Spends n r) (h : r d = .ok a d') :
    Progress d d' [] := by
  obtain ⟨hmoves, hpending, harena⟩ := hr d d' a h
  refine ⟨hmoves.weaken (Nat.zero_le n), ?_, ?_⟩
  · rw [hpending]
    exact (List.append_nil _).symm
  · rw [harena]
    exact (List.append_nil _).symm

/-- A plain read and what follows it. -/
theorem Spends.announces {f : α → Read β} (hr : Spends n r) (hf : ∀ a, Announces Q (f a)) :
    Announces Q (r >>= f) := by
  intro d d'' b h
  obtain ⟨a, d', ha, hb⟩ := Read.bind_ok_iff.mp h
  obtain ⟨ts, hprogress, hq⟩ := hf a d' d'' b hb
  refine ⟨ts, (hr.progress ha).trans hprogress, ?_⟩
  rw [(hr d d' a ha).2.2] at hq
  exact hq

theorem Announces.map {k : α → β} (hr : Announces P r)
    (hk : ∀ a slot targets, P a slot targets → Q (k a) slot targets) :
    Announces Q (do return k (← r)) := by
  intro d d'' b h
  obtain ⟨a, d', ha, hb⟩ := Read.bind_ok_iff.mp h
  cases hb
  obtain ⟨ts, hprogress, hp⟩ := hr d _ a ha
  exact ⟨ts, hprogress, hk _ _ _ hp⟩

theorem Announces.pure {a : α} (h : ∀ slot, P a slot []) : Announces P (pure a : Read α) := by
  intro d d' b hb
  cases hb
  exact ⟨[], Progress.refl d, h _⟩

end Announcing

variable {g : Grammar}

theorem announces_readPointer (target : Layout) :
    Announces (fun v slot targets => v = .null ∧ targets = [] ∨
      v = .deferred slot ∧ targets = [target]) (readPointer target) := by
  intro d d'' v h
  rw [readPointer_eq] at h
  obtain ⟨id, d', hread, hv⟩ := Read.bind_ok_iff.mp h
  by_cases hid : id = 0
  · rw [hid, announce_zero] at hv
    cases hv
    exact ⟨[], spends_readU32.progress hread, .inl ⟨rfl, rfl⟩⟩
  · rw [announce_of_ne hid] at hv
    cases hv
    obtain ⟨hmoves, hpending, harena⟩ := spends_readU32 d d' id hread
    refine ⟨[(id, target)], ⟨hmoves, ?_, ?_⟩, .inr ⟨?_, rfl⟩⟩
    · change d'.pending ++ [⟨id, d'.arena.length, target⟩] = _
      rw [hpending, harena]
      rfl
    · change d'.arena ++ [⟨id, none⟩] = _
      rw [harena]
      rfl
    · rw [harena]

/-- One read and then a row of others. -/
theorem Announces.cons {l : Layout} {ls : List Layout} {read : Read Value}
    {readRest : Read (List Value)} (h : Announces (Open g l) read)
    (hrest : Announces (OpenAll g ls) readRest) :
    Announces (OpenAll g (l :: ls)) (do
      let v ← read
      let vs ← readRest
      return v :: vs) := by
  intro d d₃ as hall
  obtain ⟨v, d₁, hv, hall⟩ := Read.bind_ok_iff.mp hall
  obtain ⟨vs, d₂, hvs, hall⟩ := Read.bind_ok_iff.mp hall
  cases hall
  obtain ⟨ts, hprogress, hopen⟩ := h d d₁ v hv
  obtain ⟨us, hprogress', hopen'⟩ := hrest d₁ _ vs hvs
  refine ⟨ts ++ us, hprogress.trans hprogress', ?_⟩
  rw [hprogress.length_arena] at hopen'
  rw [List.map_append]
  exact .cons hopen hopen'

theorem OpenAll.length_eq {ls : List Layout} {vs : List Value} {slot : Nat} {targets : List Layout}
    (h : OpenAll g ls vs slot targets) : ls.length = vs.length := by
  induction ls generalizing vs slot targets with
  | nil =>
    cases h
    rfl
  | cons l ls ih =>
    cases h with
    | cons h hrest => rw [List.length_cons, List.length_cons, ih hrest]

theorem announces_readTimes {item : Layout} {read : Read Value} (h : Announces (Open g item) read)
    (n : Nat) : Announces (OpenAll g (List.replicate n item)) (readTimes read n) := by
  induction n with
  | zero => exact Announces.pure fun slot => .nil slot
  | succ n ih => exact h.cons ih

theorem announces_readArray {item : Layout} {read : Read Value} (h : Announces (Open g item) read) :
    Announces (Open g (.array item)) (readArray read) := by
  refine spends_readU32.announces fun count => ?_
  refine (announces_readTimes h count.toNat).map fun vs slot targets hvs => .array ?_
  have hlength := hvs.length_eq
  rw [List.length_replicate] at hlength
  rw [← hlength]
  exact hvs

theorem announces_dropArm (twice : Bool) (arms : List (UInt32 × Layout)) (level : UInt32)
    (offset : Nat) (id : UInt32) :
    Announces (Open g (.choice twice arms)) (dropArm twice level offset id) := by
  have hnull : Announces (Open g (.choice twice arms)) (pure (.choice twice level .null)) :=
    Announces.pure fun slot => .choiceNull twice arms level slot
  unfold dropArm
  dsimp only
  split
  · exact (Spends.fail (n := 0) _ _).announces fun _ => hnull
  · exact hnull

theorem announces_readArm (twice : Bool) (arms : List (UInt32 × Layout)) (level : UInt32) :
    Announces (Open g (.choice twice arms)) (readArm twice arms level) := by
  unfold readArm
  cases harm : Layout.arm? arms level with
  | some target =>
    refine (announces_readPointer target).map fun v slot targets hv => ?_
    rcases hv with ⟨rfl, rfl⟩ | ⟨rfl, rfl⟩
    · exact .choiceNull twice arms level slot
    · exact .choiceDeferred twice slot harm
  | none =>
    intro d d' v h
    have hdrop := spends_readU32.announces (announces_dropArm (g := g) twice arms level d.position)
    exact hdrop d d' v h

theorem announces_readChoice (twice : Bool) (arms : List (UInt32 × Layout)) :
    Announces (Open g (.choice twice arms)) (readChoice twice arms) := by
  rw [readChoice_eq]
  exact (spends_readLevel twice).announces fun level => announces_readArm twice arms level

namespace Layout

mutual

/-- Reading a fixed part gives an open value, and announces its targets. -/
theorem announces_read (g : Grammar) : ∀ l : Layout, Announces (Open g l) (l.read g)
  | .u8 => spends_readU8.announces fun n => Announces.pure fun slot => .u8 n slot
  | .u16 => spends_readU16.announces fun n => Announces.pure fun slot => .u16 n slot
  | .u32 => spends_readU32.announces fun n => Announces.pure fun slot => .u32 n slot
  | .text => spends_readText.announces fun t => Announces.pure fun slot => .text t slot
  | .array item => announces_readArray (announces_read g item)
  | .record members => (announces_readAll g members).map fun _ _ _ hvs => .record hvs
  | .pointer target => by
    intro d d' v h
    obtain ⟨ts, hprogress, hv⟩ := announces_readPointer target d d' v h
    refine ⟨ts, hprogress, ?_⟩
    rcases hv with ⟨rfl, htargets⟩ | ⟨rfl, htargets⟩
    · rw [htargets]
      exact .null target _
    · rw [htargets]
      exact .deferred target _
  | .link name => by
    intro d d' v h
    obtain ⟨ts, hprogress, hv⟩ := announces_readPointer (g name) d d' v h
    refine ⟨ts, hprogress, ?_⟩
    rcases hv with ⟨rfl, htargets⟩ | ⟨rfl, htargets⟩
    · rw [htargets]
      exact .linkNull name _
    · rw [htargets]
      exact .linkDeferred name _
  | .choice twice arms => announces_readChoice twice arms

theorem announces_readAll (g : Grammar) :
    ∀ ls : List Layout, Announces (OpenAll g ls) (readAll g ls)
  | [] => Announces.pure fun slot => .nil slot
  | l :: ls => (announces_read g l).cons (announces_readAll g ls)

end

end Layout

end RemoteCall.Ndr
