import RemoteCall.Proofs.Ndr.Onward

/-! What any read costs. Wherever it stops, also in failure, it has moved on within the data, and it
has reserved at most one slot for every four bytes on the way (`Strides`). What it fails for, it
puts down to a place in the data. -/

namespace RemoteCall

/-- The fault is put down to a place up to that limit, if to any. -/
def Error.Within (limit : Nat) : Error → Prop
  | malformedData offset _ => offset ≤ limit
  | _ => True

end RemoteCall

namespace RemoteCall.Ndr

/-- Where the data of a decoder end. -/
def Decoder.limit (d : Decoder) : Nat := d.position + d.rest.length

theorem Onward.limit_eq {d d' : Decoder} (h : Onward d d') : d'.limit = d.limit := by
  obtain ⟨bs, hrest, hposition⟩ := h
  have hlength : d.rest.length = bs.length + d'.rest.length := by
    rw [← List.length_append]
    exact congrArg List.length hrest
  have hposition : d'.position = d.position + bs.length := hposition
  unfold Decoder.limit
  omega

theorem Onward.position_le {d d' : Decoder} (h : Onward d d') : d.position ≤ d'.position := by
  obtain ⟨bs, -, hposition⟩ := h
  have hposition : d'.position = d.position + bs.length := hposition
  omega

/-- From one state to a later one, with at most one new slot for every four bytes between them. -/
structure Strides (d d' : Decoder) : Prop where
  onward : Onward d d'
  grows : d.arena.length ≤ d'.arena.length
  slots : 4 * d'.arena.length + d.position ≤ 4 * d.arena.length + d'.position

namespace Strides

variable {d d' d'' : Decoder}

theorem of_arena (h : Onward d d') (harena : d'.arena.length = d.arena.length) : Strides d d' := by
  have hposition := h.position_le
  exact ⟨h, by omega, by omega⟩

theorem refl (d : Decoder) : Strides d d := of_arena (.refl d) rfl

theorem trans (h : Strides d d') (h' : Strides d' d'') : Strides d d'' := by
  have hslots := h.slots
  have hslots' := h'.slots
  exact ⟨h.onward.trans h'.onward, Nat.le_trans h.grows h'.grows, by omega⟩

instance : Trans Strides Strides Strides := ⟨trans⟩

/-- Only the place and the number of slots matter. -/
theorem congr {c c' : Decoder} (h : Strides c c') (hplace : c.place = d.place)
    (hplace' : c'.place = d'.place) (harena : c.arena.length = d.arena.length)
    (harena' : c'.arena.length = d'.arena.length) : Strides d d' := by
  obtain ⟨⟨bs, htakes⟩, hgrows, hslots⟩ := h
  have hposition : c.position = d.position := congrArg Place.position hplace
  have hposition' : c'.position = d'.position := congrArg Place.position hplace'
  refine ⟨⟨bs, ?_⟩, by omega, by omega⟩
  change Takes bs d.place d'.place
  rw [← hplace, ← hplace']
  exact htakes

end Strides

/-- Wherever the read begins, from `start` on, it stays in the data and does not reserve more than
it may. What it fails for has a place in the data. -/
structure Stays {α : Type} (start : Nat) (r : Read α) : Prop where
  ok : ∀ d a d', start ≤ d.position → r d = .ok a d' → Strides d d'
  error : ∀ d e d', start ≤ d.position → r d = .error e d' → Strides d d' ∧ e.Within d.limit

section Stays

variable {α β γ : Type} {start : Nat} {r : Read α} {f : α → Read β}

theorem Stays.pure (a : α) : Stays start (pure a : Read α) where
  ok := by
    rintro d _ _ - ⟨⟩
    exact .refl d
  error := by
    rintro d _ _ - ⟨⟩

theorem Stays.bind (hr : Stays start r) (hf : ∀ a, Stays start (f a)) :
    Stays start (r >>= f) where
  ok := by
    intro d b d'' hstart h
    obtain ⟨a, d', ha, hb⟩ := exists_of_bind_eq_ok h
    have hfirst := hr.ok d a d' hstart ha
    have hstart' := Nat.le_trans hstart hfirst.onward.position_le
    exact hfirst.trans ((hf a).ok d' b d'' hstart' hb)
  error := by
    intro d e d'' hstart h
    cases hd : r d with
    | ok a d' =>
      rw [bind_of_eq_ok hd] at h
      have hfirst := hr.ok d a d' hstart hd
      have hstart' := Nat.le_trans hstart hfirst.onward.position_le
      obtain ⟨hrest, hwithin⟩ := (hf a).error d' e d'' hstart' h
      rw [hfirst.onward.limit_eq] at hwithin
      exact ⟨hfirst.trans hrest, hwithin⟩
    | error e' d' =>
      rw [bind_of_eq_error hd] at h
      cases h
      exact hr.error d _ _ hstart hd

/-- As a relation of each read to itself. -/
theorem composes_stays : Composes fun r s => r = s ∧ Stays start r where
  pure a := ⟨rfl, .pure a⟩
  bind := by
    rintro α β r _ f k ⟨rfl, hr⟩ hf
    exact ⟨congrArg _ (funext fun a => (hf a).1), hr.bind fun a => (hf a).2⟩

theorem Stays.map {k : α → β} (hr : Stays start r) : Stays start (do return k (← r)) :=
  hr.bind fun a => .pure (k a)

theorem Stays.forM {read : γ → Read Unit} (h : ∀ c, Stays start (read c)) (cs : List γ) :
    Stays start (cs.forM read) := by
  induction cs with
  | nil => exact .pure ()
  | cons c cs ih => exact (h c).bind fun _ => ih

/-- A read that only looks at its position, which it may put a fault down to later. -/
theorem Stays.position {f : Nat → Read α} (hf : ∀ n, Stays n (f n)) :
    Stays start (do f (← get).position) where
  ok d a d' _ h := (hf d.position).ok d a d' (Nat.le_refl _) h
  error d e d' _ h := (hf d.position).error d e d' (Nat.le_refl _) h

/-- A step that leaves the place and the number of slots alone. -/
theorem stays_modify {k : Decoder → Decoder} (hplace : ∀ d, (k d).place = d.place)
    (harena : ∀ d, (k d).arena.length = d.arena.length) : Stays start (modify k) where
  ok := by
    rintro d _ _ - ⟨⟩
    exact (Strides.refl d).congr rfl (hplace d).symm rfl (harena d).symm
  error := by
    rintro d _ _ - ⟨⟩

end Stays

/-! ## Single reads -/

section Reads

variable {α : Type} {start : Nat}

theorem stays_fail (offset : Nat) (defect : DataDefect) :
    Stays offset (fail offset defect : Read α) where
  ok := by
    rintro d _ _ - ⟨⟩
  error := by
    rintro d _ _ hoffset ⟨⟩
    exact ⟨.refl d, Nat.le_trans hoffset (Nat.le_add_right _ _)⟩

theorem stays_takeBytes (n : Nat) (item : DataItem) : Stays start (takeBytes n item) where
  ok d bs d' _ h := by
    obtain ⟨-, -, hd⟩ := takeBytes_of_ok h
    exact .of_arena ((gives_takeBytes n item).ok d bs d' h).1 (by rw [hd])
  error d e d' _ h := by
    rw [takeBytes, splitExact?_eq] at h
    by_cases hn : n ≤ d.rest.length
    · simp [hn] at h
    · simp only [hn, if_false] at h
      cases h
      exact ⟨.refl d, Nat.le_add_right _ _⟩

theorem stays_align (alignment : Nat) : Stays start (align alignment) :=
  Stays.position (f := fun n => do
    let _ ← takeBytes ((alignment - n % alignment) % alignment) .padding) fun _ =>
      (stays_takeBytes _ _).bind fun _ => .pure ()

theorem stays_readU8 : Stays start readU8 := (stays_takeBytes 1 .u8).map

theorem stays_readU16 : Stays start readU16 :=
  (stays_align 2).bind fun _ => (stays_takeBytes 2 .u16).map

theorem stays_readU32 : Stays start readU32 :=
  (stays_align 4).bind fun _ => (stays_takeBytes 4 .u32).map

theorem stays_readU64 : Stays start readU64 :=
  (stays_align 4).bind fun _ => (stays_takeBytes 8 .u64).map

theorem stays_readCharacters (start : Nat) (count : UInt32) :
    Stays start (readCharacters start count) := by
  refine (stays_takeBytes _ _).bind fun raw => ?_
  cases Text.ofUnits? (unitsOfBytes raw) with
  | none => exact stays_fail _ _
  | some t => exact .pure t

theorem stays_readText : Stays start readText := by
  rw [readText_eq]
  refine Stays.position fun n => stays_readU32.bind fun max => stays_readU32.bind fun offset =>
    stays_readU32.bind fun actual => ?_
  dsimp only
  split
  · exact (stays_fail _ _).bind fun _ => stays_readCharacters n actual
  · exact stays_readCharacters n actual

theorem stays_readTimes {read : Read α} (h : Stays start read) (n : Nat) :
    Stays start (readTimes read n) := by
  induction n with
  | zero => exact .pure []
  | succ n ih => exact h.bind fun _ => ih.map

end Reads

/-! ## Fixed parts -/

section Fixed

variable {start : Nat}

/-- The slot is paid for by the four bytes of the id. -/
theorem stays_readPointer (target : Layout) : Stays start (readPointer target) where
  ok d v d' hstart h := by
    rw [readPointer_eq] at h
    obtain ⟨id, d₁, hread, hv⟩ := exists_of_bind_eq_ok h
    have hfirst := stays_readU32.ok d id d₁ hstart hread
    by_cases hid : id = 0
    · rw [hid, announce_zero] at hv
      cases hv
      exact hfirst
    · rw [announce_of_ne hid] at hv
      cases hv
      obtain ⟨⟨bs, -, hposition, hlength⟩, -, harena⟩ := spends_readU32 d d₁ id hread
      have hslots : (d₁.arena ++ [(⟨id, none⟩ : Slot)]).length = d.arena.length + 1 := by
        rw [harena, List.length_append, List.length_singleton]
      refine ⟨hfirst.onward, ?_, ?_⟩
      · dsimp only
        omega
      · dsimp only
        omega
  error d e d' hstart h := by
    rw [readPointer_eq] at h
    cases hread : readU32 d with
    | ok id d₁ =>
      rw [bind_of_eq_ok hread] at h
      by_cases hid : id = 0
      · rw [hid, announce_zero] at h
        cases h
      · rw [announce_of_ne hid] at h
        cases h
    | error e' d₁ =>
      rw [bind_of_eq_error hread] at h
      cases h
      exact stays_readU32.error d _ _ hstart hread

theorem stays_readArray {item : Read Value} (h : Stays start item) :
    Stays start (readArray item) :=
  stays_readU32.bind fun count => (stays_readTimes h count.toNat).map

theorem stays_dropArm (twice : Bool) (level : UInt32) (offset : Nat) (id : UInt32) :
    Stays offset (dropArm twice level offset id) := by
  unfold dropArm
  dsimp only
  split
  · exact (stays_fail _ _).bind fun _ => .pure _
  · exact .pure _

theorem stays_readArm (twice : Bool) (arms : List (UInt32 × Layout)) (level : UInt32) :
    Stays start (readArm twice arms level) := by
  unfold readArm
  cases Layout.arm? arms level with
  | some target => exact (stays_readPointer target).map
  | none =>
    have hdrop : ∀ offset, Stays offset (readU32 >>= dropArm twice level offset) :=
      fun offset => stays_readU32.bind fun id => stays_dropArm twice level offset id
    exact Stays.position hdrop

theorem stays_readChoice (twice : Bool) (arms : List (UInt32 × Layout)) :
    Stays start (readChoice twice arms) := by
  have hlevel : Stays start (readLevel twice) := by
    cases twice with
    | false => exact stays_readU32
    | true => exact stays_readU32.bind fun _ => stays_readU32
  rw [readChoice_eq]
  exact hlevel.bind fun level => stays_readArm twice arms level

namespace Layout

mutual

theorem stays_read (g : Grammar) : ∀ l : Layout, Stays start (l.read g)
  | .u8 => stays_readU8.map
  | .u16 => stays_readU16.map
  | .u32 => stays_readU32.map
  | .text => stays_readText.map
  | .array item => stays_readArray (stays_read g item)
  | .record members => (stays_readAll g members).map
  | .pointer target => stays_readPointer target
  | .link name => stays_readPointer (g name)
  | .choice twice arms => stays_readChoice twice arms

theorem stays_readAll (g : Grammar) : ∀ ls : List Layout, Stays start (readAll g ls)
  | [] => .pure []
  | l :: ls => (stays_read g l).bind fun _ => (stays_readAll g ls).map

end

end Layout

end Fixed

/-! ## Constructs -/

section Constructs

variable {α : Type} {start : Nat} {g : Grammar}

theorem Error.within_inReferent {limit : Nat} (id : UInt32) {e : Error} (h : e.Within limit) :
    (inReferent id e).Within limit := by
  cases e <;> exact h

theorem Stays.wrapping {r : Read α} (id : UInt32) (h : Stays start r) :
    Stays start (wrapping (inReferent id) r) where
  ok d a d' hstart hd := by
    unfold Ndr.wrapping at hd
    cases hr : r d <;> rw [hr] at hd <;> cases hd
    exact h.ok d _ _ hstart hr
  error d e d' hstart hd := by
    unfold Ndr.wrapping at hd
    cases hr : r d <;> rw [hr] at hd <;> cases hd
    obtain ⟨hstrides, hwithin⟩ := h.error d _ _ hstart hr
    exact ⟨hstrides, Error.within_inReferent id hwithin⟩

/-- What is pending makes no difference. -/
theorem Stays.collecting {r : Read α} (h : Stays start r) : Stays start (collecting r) where
  ok d a d' hstart hd := by
    rw [collecting_eq] at hd
    cases hr : r { d with pending := [] } <;> rw [hr] at hd <;> cases hd
    exact (h.ok { d with pending := [] } _ _ hstart hr).congr rfl rfl rfl rfl
  error d e d' hstart hd := by
    rw [collecting_eq] at hd
    cases hr : r { d with pending := [] } <;> rw [hr] at hd <;> cases hd
    obtain ⟨hstrides, hwithin⟩ := h.error { d with pending := [] } _ _ hstart hr
    exact ⟨hstrides.congr rfl rfl rfl rfl, hwithin⟩

theorem stays_fill (p : Pending) (v : Value) : Stays start (modify fun d : Decoder =>
    { d with arena := d.arena.fill p.slot p.layout v }) :=
  stays_modify (fun _ => rfl) fun d => Arena.length_fill d.arena p.slot p.layout v

theorem stays_readTarget (depth : Nat) (p : Pending) : Stays start (readTarget g depth p) := by
  induction depth generalizing p with
  | zero => exact .pure ()
  | succ depth ih =>
    rw [readTarget_succ]
    refine ((p.layout.stays_read g).wrapping p.id).collecting.bind fun read => ?_
    exact (Stays.forM ih read.2).bind fun _ => stays_fill p read.1

theorem Arena.length_take (a : Arena) (slot : Nat) (l : Layout) :
    List.length (a.take slot l).2 = a.length := by
  unfold Arena.take
  cases a[slot]? with
  | none => rfl
  | some s =>
    dsimp only
    cases s.content with
    | none => exact List.length_modify ..
    | some found =>
      dsimp only
      split <;> exact List.length_modify ..

theorem Arena.within_take {a : Arena} {slot : Nat} {l : Layout} {e : Error} {after : Arena}
    (limit : Nat) (h : a.take slot l = (.error e, after)) : e.Within limit := by
  unfold Arena.take at h
  cases hslot : a[slot]? with
  | none =>
    rw [hslot] at h
    cases h
    exact Nat.zero_le _
  | some s =>
    simp only [hslot] at h
    cases hcontent : s.content with
    | none =>
      rw [hcontent] at h
      cases h
      exact Nat.zero_le _
    | some found =>
      simp only [hcontent] at h
      split at h <;> cases h
      exact Nat.zero_le _

theorem stays_takeSlot (l : Layout) (slot : Nat) : Stays start (takeSlot l slot) where
  ok d v d' _ h := by
    have hlength := Arena.length_take d.arena slot l
    unfold takeSlot at h
    split at h <;> cases h
    next htake =>
      rw [htake] at hlength
      exact .of_arena (.refl d) hlength
  error d e d' _ h := by
    have hlength := Arena.length_take d.arena slot l
    unfold takeSlot at h
    split at h <;> cases h
    next htake =>
      rw [htake] at hlength
      exact ⟨.of_arena (.refl d) hlength, Arena.within_take _ htake⟩

theorem stays_bindTo (depth : Nat) (l : Layout) (v : Value) : Stays start (bindTo g depth l v) := by
  induction depth generalizing l v with
  | zero => exact .pure v
  | succ depth ih =>
    have hresolve := fun target slot => (stays_takeSlot target slot).bind (ih target)
    exact (composes_stays.bindWith (fun target slot => ⟨rfl, hresolve target slot⟩) l v).2

theorem stays_bind (l : Layout) (v : Value) : Stays start (bind g l v) where
  ok d := (stays_bindTo (d.arena.length + 1) l v).ok d
  error d := (stays_bindTo (d.arena.length + 1) l v).error d

theorem stays_readTargets (ts : List Pending) : Stays start (readTargets g ts) where
  ok d := (Stays.forM (stays_readTarget (d.rest.length + 1)) ts).ok d
  error d := (Stays.forM (stays_readTarget (d.rest.length + 1)) ts).error d

theorem stays_readConstruct (l : Layout) : Stays start (readConstruct g l) :=
  (l.stays_read g).collecting.bind fun fixed =>
    (stays_readTargets fixed.2).bind fun _ => stays_bind l fixed.1

theorem stays_readUnique (l : Layout) : Stays start (readUnique g l) := by
  rw [readUnique_eq]
  refine stays_readU32.bind fun id => ?_
  unfold readReferred
  split
  · exact .pure none
  · exact (stays_readConstruct l).map

end Constructs

end RemoteCall.Ndr
