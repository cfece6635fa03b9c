import RemoteCall.Proofs.Ndr.Onward

/-! How far down binding goes. A pointer that is bound has its slot emptied first, and what stood in
the slot is bound with one slot less, so binding gets to no depth that the slots do not allow: what
would be done below makes no difference (`bindOver_eq_bind`). -/

namespace RemoteCall.Ndr

/-- Binds pointers down to a depth, and has `below` done to what lies deeper. -/
def bindOver (g : Grammar) (below : Layout → Value → Read Value) :
    (depth : Nat) → Layout → Value → Read Value
  | 0 => below
  | depth + 1 => Layout.bindWith g fun target slot => do
    bindOver g below depth target (← takeSlot target slot)

/-- Binding stops at some depth by itself: nothing is left for what would be done below. -/
def Binds (g : Grammar) (l : Layout) (v : Value) (d : Decoder)
    (result : EStateM.Result Error Decoder Value) : Prop :=
  ∃ depth, ∀ below, bindOver g below depth l v d = result

/-- The slots that hold a value. -/
def Arena.full (a : Arena) : Nat := a.countP fun s => s.content.isSome

section Bind

variable {g : Grammar} {below below' : Layout → Value → Read Value}

theorem bindTo_eq_bindOver (depth : Nat) :
    bindTo g depth = bindOver g (fun _ v => pure v) depth := by
  induction depth with
  | zero => rfl
  | succ depth ih =>
    unfold bindTo bindOver
    rw [ih]

/-- Going deeper is going on below. -/
theorem bindOver_add (n m : Nat) :
    bindOver g below (n + m) = bindOver g (bindOver g below m) n := by
  induction n with
  | zero => rw [Nat.zero_add, bindOver]
  | succ n ih =>
    rw [Nat.succ_add, bindOver, bindOver, ih]

/-- There is one result. -/
theorem Binds.unique {l : Layout} {v : Value} {d : Decoder}
    {result result' : EStateM.Result Error Decoder Value} (h : Binds g l v d result)
    (h' : Binds g l v d result') : result' = result := by
  obtain ⟨n, hn⟩ := h
  obtain ⟨m, hm⟩ := h'
  calc result' = bindOver g (bindOver g (fun _ v => pure v) n) m l v d := (hm _).symm
    _ = bindOver g (bindOver g (fun _ v => pure v) m) n l v d := by
      rw [← bindOver_add, Nat.add_comm, bindOver_add]
    _ = result := hn _

/-! ## Slots are emptied -/

/-- A value that is taken leaves its slot empty. -/
theorem Arena.full_take {a after : Arena} {slot : Nat} {l : Layout} {v : Value}
    (h : a.take slot l = (.ok v, after)) : after.full < a.full := by
  unfold take at h
  cases hslot : a[slot]? with
  | none =>
    rw [hslot] at h
    cases h
  | some s =>
    obtain ⟨hlt, rfl⟩ := List.getElem?_eq_some_iff.mp hslot
    simp only [hslot] at h
    cases hcontent : a[slot].content with
    | none =>
      rw [hcontent] at h
      cases h
    | some found =>
      simp only [hcontent] at h
      split at h <;> cases h
      have hsplit : List.take slot a ++ a[slot] :: List.drop (slot + 1) a = a := by
        rw [List.getElem_cons_drop, List.take_append_drop]
      have hcount := congrArg full hsplit
      rw [List.modify_eq_take_cons_drop hlt]
      simp only [full, List.countP_append, List.countP_cons, hcontent, Option.isSome_some,
        Option.isSome_none, if_true, Bool.false_eq_true, if_false] at hcount ⊢
      omega

/-- On decoders with less than `n` full slots both reads do the same, and fill none. -/
def Agrees {α : Type} (n : Nat) (r s : Read α) : Prop :=
  ∀ d, d.arena.full < n → s d = r d ∧ ∀ a d', r d = .ok a d' → d'.arena.full < n

section Agrees

variable {α β : Type} {n : Nat}

theorem Agrees.pure (a : α) : Agrees n (pure a : Read α) (pure a) := by
  intro d hd
  refine ⟨rfl, ?_⟩
  rintro _ _ ⟨⟩
  exact hd

theorem Agrees.bind {r s : Read α} {f k : α → Read β} (hr : Agrees n r s)
    (hf : ∀ a, Agrees n (f a) (k a)) : Agrees n (r >>= f) (s >>= k) := by
  intro d hd
  obtain ⟨hsame, hfull⟩ := hr d hd
  cases hresult : r d with
  | ok a d' =>
    rw [hresult] at hsame
    rw [bind_of_eq_ok hresult, bind_of_eq_ok hsame]
    exact hf a d' (hfull a d' hresult)
  | error e d' =>
    rw [hresult] at hsame
    rw [bind_of_eq_error hresult, bind_of_eq_error hsame]
    exact ⟨rfl, fun _ _ h => by cases h⟩

theorem composes_agrees : Composes (Agrees n) := ⟨.pure, .bind⟩

end Agrees

/-! ## The depth is enough -/

/-- Step: what binds a target has one full slot less. -/
theorem agrees_resolve {n depth depth' : Nat}
    (h : ∀ l v, Agrees n (bindOver g below depth l v) (bindOver g below' depth' l v))
    (target : Layout) (slot : Nat) :
    Agrees (n + 1) (do bindOver g below depth target (← takeSlot target slot))
      (do bindOver g below' depth' target (← takeSlot target slot)) := by
  intro d hd
  cases htake : takeSlot target slot d with
  | ok v d' =>
    rw [bind_of_eq_ok htake, bind_of_eq_ok htake]
    have hless : d'.arena.full < d.arena.full := by
      unfold takeSlot at htake
      split at htake <;> cases htake
      next htaken => exact Arena.full_take htaken
    obtain ⟨hsame, hfull⟩ := h target v d' (by omega)
    exact ⟨hsame, fun a d'' hok => Nat.lt_succ_of_lt (hfull a d'' hok)⟩
  | error e d' =>
    rw [bind_of_eq_error htake, bind_of_eq_error htake]
    exact ⟨rfl, fun _ _ hok => by cases hok⟩

/-- Run: any two depths that the slots do not exceed give the same, whatever is done below. -/
theorem agrees_bindOver {n depth depth' : Nat} (hn : n ≤ depth) (hn' : n ≤ depth') (l : Layout)
    (v : Value) : Agrees n (bindOver g below depth l v) (bindOver g below' depth' l v) := by
  induction n generalizing depth depth' l v with
  | zero =>
    intro d hd
    exact absurd hd (Nat.not_lt_zero _)
  | succ n ih =>
    obtain ⟨m, rfl⟩ : ∃ m, depth = m + 1 := ⟨depth - 1, by omega⟩
    obtain ⟨m', rfl⟩ : ∃ m', depth' = m' + 1 := ⟨depth' - 1, by omega⟩
    exact composes_agrees.bindWith (agrees_resolve fun l v => ih (by omega) (by omega) l v) l v

/-- **Binding gets no further down than there are full slots.** What would be done below does not
matter. -/
theorem bindOver_eq_bind {depth : Nat} {d : Decoder} (hdepth : d.arena.full < depth) (l : Layout)
    (v : Value) : bindOver g below depth l v d = bind g l v d := by
  have hlength : d.arena.full < d.arena.length + 1 := Nat.lt_succ_of_le List.countP_le_length
  have hbind : bind g l v d = bindTo g (d.arena.length + 1) l v d := rfl
  rw [hbind, bindTo_eq_bindOver]
  exact (agrees_bindOver hlength hdepth l v d (Nat.lt_succ_self _)).1

theorem binds_bind (l : Layout) (v : Value) (d : Decoder) : Binds g l v d (bind g l v d) :=
  ⟨d.arena.full + 1, fun _ => bindOver_eq_bind (Nat.lt_succ_self _) l v⟩

end Bind

end RemoteCall.Ndr
