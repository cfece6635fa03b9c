import RemoteCall.Proofs.Ndr.Binding

/-! The arena as a forest. The content of a slot is an open value, its own slots follow at once, and
what these hold comes behind them, one after the other. Binding takes the trees of a forest out of
the arena, in order, and leaves all other slots as they are. -/

namespace RemoteCall.Ndr

/-- What a slot holds. -/
def Arena.content (a : Arena) (slot : Nat) : Option (Layout × Value) := a[slot]?.bind (·.content)

/-- The values assigned to the slots from `slot` on. -/
def Assigns (σ : Nat → Value) : (slot : Nat) → List Value → Prop
  | _, [] => True
  | slot, t :: ts => σ slot = t ∧ Assigns σ (slot + 1) ts

/-- The slots from `slot` on hold values of the layouts, and bind to the trees. Their own slots, and
those below, are the ones from `next` up to `last`. -/
inductive Forest (g : Grammar) (content : Nat → Option (Layout × Value)) :
    (slot : Nat) → List Layout → (trees : List Value) → (next last : Nat) → Prop
  | nil (slot next : Nat) : Forest g content slot [] [] next next
  | cons {l : Layout} {v : Value} {ls below : List Layout} {trees branches : List Value}
      {σ : Nat → Value} {slot next mid last : Nat} (hcontent : content slot = some (l, v))
      (hopen : Open g l v next below)
      (hbelow : Forest g content next below branches (next + below.length) mid)
      (hσ : Assigns σ next branches) (hrest : Forest g content (slot + 1) ls trees mid last) :
      Forest g content slot (l :: ls) (v.fill σ :: trees) next last

namespace Forest

variable {g : Grammar} {content content' : Nat → Option (Layout × Value)} {slot next last : Nat}
  {ls : List Layout} {trees : List Value}

theorem le (h : Forest g content slot ls trees next last) : next ≤ last := by
  induction h with
  | nil => exact Nat.le_refl _
  | cons _ _ _ _ _ ihbelow ihrest => omega

/-- Only its own slots matter to a forest. -/
theorem congr (h : Forest g content slot ls trees next last)
    (hroots : ∀ i, slot ≤ i → i < slot + ls.length → content' i = content i)
    (hbelow : ∀ i, next ≤ i → i < last → content' i = content i) :
    Forest g content' slot ls trees next last := by
  induction h with
  | nil slot next => exact .nil slot next
  | @cons l v ls below trees branches σ slot next mid last hcontent hopen hforest hσ hrest ihbelow
      ihrest =>
    have hmid := hforest.le
    have hlast := hrest.le
    rw [List.length_cons] at hroots
    refine .cons ?_ hopen (ihbelow ?_ ?_) hσ (ihrest ?_ ?_)
    · rw [hroots slot (Nat.le_refl _) (by omega)]
      exact hcontent
    · intro i hlo hhi
      exact hbelow i hlo (by omega)
    · intro i hlo hhi
      exact hbelow i (by omega) (by omega)
    · intro i hlo hhi
      exact hroots i (by omega) (by omega)
    · intro i hlo hhi
      exact hbelow i (by omega) hhi

end Forest

/-! ## Taking trees out -/

/-- The slot is emptied and the others stay. -/
theorem Arena.content_modify_none (a : Arena) (slot i : Nat) :
    Arena.content (a.modify slot fun s => { s with content := none }) i =
      if i = slot then none else a.content i := by
  unfold Arena.content
  rw [List.getElem?_modify]
  by_cases hi : i = slot
  · rw [if_pos hi]
    cases a[i]? with
    | none => rfl
    | some s => simp only [hi, Option.map_eq_map, Option.map_some, Option.bind_some, if_true]
  · rw [if_neg hi]
    cases a[i]? with
    | none => rfl
    | some s => simp only [Ne.symm hi, Option.map_eq_map, Option.map_some, if_false]

theorem takeSlot_of_content {d : Decoder} {slot : Nat} {l : Layout} {v : Value}
    (h : d.arena.content slot = some (l, v)) :
    takeSlot l slot d = .ok v
      { d with arena := d.arena.modify slot fun s => { s with content := none } } := by
  unfold Arena.content at h
  cases hslot : d.arena[slot]? with
  | none =>
    rw [hslot] at h
    cases h
  | some s =>
    rw [hslot] at h
    have hs : s.content = some (l, v) := h
    simp only [takeSlot, Arena.take, hslot, hs, Layout.same_self, if_true]

/-- The arena after the trees of a forest were taken out of it. -/
structure Harvested (a a' : Arena) (slot count next last : Nat) : Prop where
  length : a'.length = a.length
  content : ∀ i, i < slot ∨ slot + count ≤ i ∧ i < next ∨ last ≤ i → a'.content i = a.content i

/-- The slots of a forest resolve to its trees, if the depth reaches down to its last slot. -/
theorem Forest.resolves {g : Grammar} {content : Nat → Option (Layout × Value)} {d : Decoder}
    {slot next last : Nat} {ls : List Layout} {trees : List Value} {σ : Nat → Value}
    (h : Forest g content slot ls trees next last) (depth : Nat)
    (hroots : ∀ i, slot ≤ i → i < slot + ls.length → d.arena.content i = content i)
    (hslots : ∀ i, next ≤ i → i < last → d.arena.content i = content i)
    (hbefore : slot + ls.length ≤ next) (hdepth : last ≤ slot + depth) (hσ : Assigns σ slot trees) :
    ∃ a', Resolves (fun l slot => do bindTo g depth l (← takeSlot l slot)) σ d slot ls
        { d with arena := a' } ∧ Harvested d.arena a' slot ls.length next last := by
  induction h generalizing d depth σ with
  | nil slot next => exact ⟨d.arena, .nil d slot, rfl, fun _ _ => rfl⟩
  | @cons l v ls below trees branches τ slot next mid last hroot hopen hforest hτ hrest ihbelow
      ihrest =>
    have hmid := hforest.le
    have hlast := hrest.le
    rw [List.length_cons] at hroots hbefore
    obtain ⟨depth, rfl⟩ : ∃ k, depth = k + 1 := ⟨depth - 1, by omega⟩
    -- The root is taken out of its slot.
    have htake : takeSlot l slot d = .ok v _ :=
      takeSlot_of_content ((hroots slot (Nat.le_refl _) (by omega)).trans hroot)
    generalize hd₁ : ({ d with arena := d.arena.modify slot fun s =>
      { s with content := none } } : Decoder) = d₁ at htake
    have hlength₁ : d₁.arena.length = d.arena.length := by
      rw [← hd₁]
      exact List.length_modify ..
    have hcontent₁ : ∀ i, i ≠ slot → d₁.arena.content i = d.arena.content i := by
      intro i hi
      rw [← hd₁]
      exact (Arena.content_modify_none d.arena slot i).trans (if_neg hi)
    -- What its own slots hold is bound first, and then the roots that follow.
    obtain ⟨a₂, hbranches, hlength₂, hcontent₂⟩ := ihbelow (d := d₁) depth
      (fun i hlo hhi => (hcontent₁ i (by omega)).trans (hslots i hlo (by omega)))
      (fun i hlo hhi => (hcontent₁ i (by omega)).trans (hslots i (by omega) (by omega)))
      (Nat.le_refl _) (by omega) hτ
    have hbind := Layout.bindWith_open l hopen hbranches
    obtain ⟨a₃, hroots₃, hlength₃, hcontent₃⟩ := ihrest (d := { d₁ with arena := a₂ })
      (depth + 1)
      (fun i hlo hhi => ((hcontent₂ i (by omega)).trans (hcontent₁ i (by omega))).trans
        (hroots i (by omega) (by omega)))
      (fun i hlo hhi => ((hcontent₂ i (by omega)).trans (hcontent₁ i (by omega))).trans
        (hslots i (by omega) hhi))
      (by omega) (by omega) hσ.2
    have hroot₃ : (do bindTo g (depth + 1) l (← takeSlot l slot)) d
        = .ok (σ slot) { d₁ with arena := a₂ } := by
      rw [hσ.1]
      exact Read.bind_ok_iff.mpr ⟨v, d₁, htake, hbind⟩
    refine ⟨a₃, .cons hroot₃ ?_, ?_, ?_⟩
    · rw [← hd₁] at hroots₃
      rw [← hd₁]
      exact hroots₃
    · exact hlength₃.trans (hlength₂.trans hlength₁)
    · intro i hi
      rw [List.length_cons] at hi
      exact (hcontent₃ i (by omega)).trans
        ((hcontent₂ i (by omega)).trans (hcontent₁ i (by omega)))

end RemoteCall.Ndr
