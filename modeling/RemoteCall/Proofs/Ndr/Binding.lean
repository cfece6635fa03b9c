import RemoteCall.Proofs.Ndr.Fixed

/-! Binding: the slots of an open value are resolved in the order of its pointers, and what they
resolve to ends up in them. The arena holds a forest: the content of a slot is open itself, its own
slots follow at once, and what these hold comes behind them, one after the other. Binding empties
the slots of a forest and gives its trees. -/

namespace RemoteCall.Ndr

/-- Binds the deferred pointers of a fixed part. -/
def Value.fill (σ : Nat → Value) : Value → Value := subst fun slot => .pointer (σ slot)

theorem Value.fill_array (σ : Nat → Value) (vs : List Value) :
    (Value.array vs).fill σ = .array (vs.map (fill σ)) :=
  congrArg Value.array (substAll_eq_map _ vs)

theorem Value.fill_record (σ : Nat → Value) (vs : List Value) :
    (Value.record vs).fill σ = .record (vs.map (fill σ)) :=
  congrArg Value.record (substAll_eq_map _ vs)

theorem Value.fill_shift (σ : Nat → Value) (n : Nat) (v : Value) :
    (v.shift n).fill σ = v.fill fun slot => σ (n + slot) := subst_shift _ n v

/-! ## One value -/

/-- The slots from `slot` on are resolved one after the other, to what `σ` says. -/
inductive Resolves (resolve : Layout → Nat → Read Value) (σ : Nat → Value) :
    Decoder → Nat → List Layout → Decoder → Prop
  | nil (d : Decoder) (slot : Nat) : Resolves resolve σ d slot [] d
  | cons {l : Layout} {ls : List Layout} {slot : Nat} {d d' d'' : Decoder}
      (h : resolve l slot d = .ok (σ slot) d') (hrest : Resolves resolve σ d' (slot + 1) ls d'') :
      Resolves resolve σ d slot (l :: ls) d''

section Bind

variable {g : Grammar} {resolve : Layout → Nat → Read Value} {σ : Nat → Value} {d d' : Decoder}

theorem Resolves.split {ls us : List Layout} {slot : Nat}
    (h : Resolves resolve σ d slot (ls ++ us) d') :
    ∃ dₘ, Resolves resolve σ d slot ls dₘ ∧ Resolves resolve σ dₘ (slot + ls.length) us d' := by
  induction ls generalizing slot d with
  | nil => exact ⟨d, .nil d slot, h⟩
  | cons l ls ih =>
    cases h with
    | cons h hrest =>
      obtain ⟨dₘ, hls, hus⟩ := ih hrest
      rw [show slot + 1 + ls.length = slot + (ls.length + 1) by omega] at hus
      exact ⟨dₘ, .cons h hls, hus⟩

/-- A row of values that are bound in the same way. -/
theorem mapM_bind_open {item : Layout} {bind : Value → Read Value}
    (hbind : ∀ {v slot ts d d'}, Open g item v slot ts → Resolves resolve σ d slot ts d' →
      bind v d = .ok (v.fill σ) d')
    {vs : List Value} {slot : Nat} {ts : List Layout}
    (hopen : OpenAll g (List.replicate vs.length item) vs slot ts)
    (h : Resolves resolve σ d slot ts d') :
    vs.mapM bind d = .ok (vs.map (Value.fill σ)) d' := by
  induction vs generalizing slot ts d with
  | nil =>
    cases hopen
    cases h
    rfl
  | cons v vs ih =>
    cases hopen with
    | cons hv hvs =>
      obtain ⟨dₘ, hfirst, hrest⟩ := h.split
      rw [List.mapM_cons]
      refine Read.bind_ok_iff.mpr ⟨_, _, hbind hv hfirst, ?_⟩
      exact Read.bind_ok_iff.mpr ⟨_, _, ih hvs hrest, rfl⟩

namespace Layout

mutual

/-- Binding an open value fills its pointers. -/
theorem bindWith_open : ∀ (l : Layout) {v : Value} {slot : Nat} {ts : List Layout} {d d' : Decoder},
    Open g l v slot ts → Resolves resolve σ d slot ts d' →
    l.bindWith g resolve v d = .ok (v.fill σ) d'
  | .u8 | .u16 | .u32 | .text => by
    intro hopen h
    cases hopen
    cases h
    rfl
  | .pointer target => by
    intro hopen h
    cases hopen with
    | null =>
      cases h
      rfl
    | deferred =>
      cases h with
      | cons h hrest =>
        cases hrest
        exact Read.bind_ok_iff.mpr ⟨_, _, h, rfl⟩
  | .link name => by
    intro hopen h
    cases hopen with
    | linkNull =>
      cases h
      rfl
    | linkDeferred =>
      cases h with
      | cons h hrest =>
        cases hrest
        exact Read.bind_ok_iff.mpr ⟨_, _, h, rfl⟩
  | .choice twice arms => by
    intro hopen h
    cases hopen with
    | choiceNull =>
      cases h
      rfl
    | choiceDeferred twice slot harm =>
      cases h with
      | cons h hrest =>
        cases hrest
        simp only [bindWith, harm]
        exact Read.bind_ok_iff.mpr ⟨_, _, h, rfl⟩
  | .array item => by
    intro hopen h
    cases hopen with
    | array hvs =>
      have hall := mapM_bind_open (fun hv => bindWith_open item hv) hvs h
      refine Read.bind_ok_iff.mpr ⟨_, _, hall, ?_⟩
      rw [Value.fill_array]
      rfl
  | .record ls => by
    intro hopen h
    cases hopen with
    | record hvs =>
      refine Read.bind_ok_iff.mpr ⟨_, _, bindAllWith_open ls hvs h, ?_⟩
      rw [Value.fill_record]
      rfl

theorem bindAllWith_open : ∀ (ls : List Layout) {vs : List Value} {slot : Nat} {ts : List Layout}
    {d d' : Decoder}, OpenAll g ls vs slot ts → Resolves resolve σ d slot ts d' →
    bindAllWith g resolve ls vs d = .ok (vs.map (Value.fill σ)) d'
  | [] => by
    intro hopen h
    cases hopen
    cases h
    rfl
  | l :: ls => by
    intro hopen h
    cases hopen with
    | cons hv hvs =>
      obtain ⟨dₘ, hfirst, hrest⟩ := h.split
      refine Read.bind_ok_iff.mpr ⟨_, _, bindWith_open l hv hfirst, ?_⟩
      exact Read.bind_ok_iff.mpr ⟨_, _, bindAllWith_open ls hvs hrest, rfl⟩

end

end Layout

end Bind

/-! ## Reads that bind alike -/

/-- A relation between reads that is kept when reads are put together. -/
structure Composes (R : {α : Type} → Read α → Read α → Prop) : Prop where
  pure {α : Type} (a : α) : R (pure a) (pure a)
  bind {α β : Type} {r s : Read α} {f k : α → Read β} (hr : R r s) (hf : ∀ a, R (f a) (k a)) :
    R (r >>= f) (s >>= k)

namespace Composes

variable {R : {α : Type} → Read α → Read α → Prop} {g : Grammar}
  {resolve resolve' : Layout → Nat → Read Value}

theorem map (hR : Composes R) {α β : Type} {r s : Read α} (k : α → β) (h : R r s) :
    R (do return k (← r)) (do return k (← s)) :=
  hR.bind h fun a => hR.pure (k a)

theorem mapM (hR : Composes R) {α β : Type} {f k : α → Read β} (h : ∀ a, R (f a) (k a))
    (as : List α) : R (as.mapM f) (as.mapM k) := by
  induction as with
  | nil => exact hR.pure []
  | cons a as ih =>
    rw [List.mapM_cons, List.mapM_cons]
    exact hR.bind (h a) fun _ => hR.map _ ih

mutual

/-- Binding is related where resolving is. -/
theorem bindWith (hR : Composes R)
    (h : ∀ target slot, R (resolve target slot) (resolve' target slot)) :
    ∀ (l : Layout) (v : Value), R (l.bindWith g resolve v) (l.bindWith g resolve' v)
  | .u8, _ | .u16, _ | .u32, _ | .text, _ => hR.pure _
  | .pointer target, v => by
    cases v with
    | deferred slot => exact hR.map _ (h target slot)
    | _ => exact hR.pure _
  | .link name, v => by
    cases v with
    | deferred slot => exact hR.map _ (h (g name) slot)
    | _ => exact hR.pure _
  | .choice _ arms, v => by
    cases v with
    | choice twice level arm =>
      cases arm with
      | deferred slot =>
        simp only [Layout.bindWith]
        cases Layout.arm? arms level with
        | some target => exact hR.map _ (h target slot)
        | none => exact hR.pure _
      | _ => exact hR.pure _
    | _ => exact hR.pure _
  | .array item, v => by
    cases v with
    | array vs => exact hR.map _ (hR.mapM (hR.bindWith h item) vs)
    | _ => exact hR.pure _
  | .record members, v => by
    cases v with
    | record vs => exact hR.map _ (hR.bindAllWith h members vs)
    | _ => exact hR.pure _

theorem bindAllWith (hR : Composes R)
    (h : ∀ target slot, R (resolve target slot) (resolve' target slot)) :
    ∀ (ls : List Layout) (vs : List Value),
      R (Layout.bindAllWith g resolve ls vs) (Layout.bindAllWith g resolve' ls vs)
  | [], _ => hR.pure _
  | _ :: _, [] => hR.pure _
  | l :: ls, v :: vs => hR.bind (hR.bindWith h l v) fun _ => hR.map _ (hR.bindAllWith h ls vs)

end

end Composes

end RemoteCall.Ndr
