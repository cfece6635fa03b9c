import RemoteCall.Proofs.Ndr.Forest

/-! Constructs without the detour through the arena. `readTree` reads the fixed part of a value,
then each of its targets in full, and puts them into the pointers at once. `readConstruct` does the
same, whatever was read before: what is pending and what is in the arena makes no difference. -/

namespace RemoteCall.Ndr

/-- A place in the bytes. -/
structure Place where
  rest : List UInt8
  position : Nat

def Decoder.place (d : Decoder) : Place := ⟨d.rest, d.position⟩

/-- A decoder at a place, with nothing read before. -/
def Place.decoder (p : Place) : Decoder := ⟨p.rest, p.position, [], []⟩

abbrev TreeRead := EStateM Error Place

/-- A fixed part, and the ids and layouts of the targets that are to follow. -/
def Layout.readFixed (g : Grammar) (wrap : Error → Error) (l : Layout) :
    TreeRead (Value × List (UInt32 × Layout)) := fun p =>
  match l.read g p.decoder with
  | .ok v d => .ok (v, d.pending.map fun t => (t.id, t.layout)) d.place
  | .error e d => .error (wrap e) d.place

/-- The tree below the first slot, the second one, and so on. -/
def branch (trees : List Value) (slot : Nat) : Value := trees.getD slot .null

/-- A value with everything below it, down to a depth. -/
def readTree (g : Grammar) : (depth : Nat) → (Error → Error) → Layout → TreeRead Value
  | 0, _, _ => return .null
  | depth + 1, wrap, l => do
    let (v, targets) ← l.readFixed g wrap
    let trees ← targets.mapM fun t => readTree g depth (inReferent t.1) t.2
    return v.fill (branch trees)

/-! ## Reads that follow tree reads -/

/-- A read ends as a tree read does: at the same place, with the same error or with results that are
related as `Q` says. -/
def Follows {α β : Type} (Q : α → β → Decoder → Prop) :
    EStateM.Result Error Place α → EStateM.Result Error Decoder β → Prop
  | .ok a p, .ok b d => d.place = p ∧ Q a b d
  | .error e p, .error e' d => d.place = p ∧ e' = e
  | _, _ => False

section Follows

variable {α β γ δ : Type} {P : α → β → Decoder → Prop} {Q : γ → δ → Decoder → Prop}

theorem TreeRead.bind_eq (t : TreeRead α) (f : α → TreeRead γ) (p : Place) :
    (t >>= f) p = match t p with
      | .ok a p => f a p
      | .error e p => .error e p := by
  change EStateM.bind t f p = _
  unfold EStateM.bind
  cases t p <;> rfl

theorem Follows.bind {t : TreeRead α} {f : α → TreeRead γ} {r : Read β} {k : β → Read δ} {p : Place}
    {d : Decoder} (h : Follows P (t p) (r d))
    (hnext : ∀ a b d', P a b d' → Follows Q (f a d'.place) (k b d')) :
    Follows Q ((t >>= f) p) ((r >>= k) d) := by
  rw [TreeRead.bind_eq, Read.bind_eq]
  cases ht : t p with
  | ok a p' =>
    cases hr : r d with
    | ok b d' =>
      rw [ht, hr] at h
      obtain ⟨rfl, hp⟩ := h
      exact hnext a b d' hp
    | error e d' =>
      rw [ht, hr] at h
      cases h
  | error e p' =>
    cases hr : r d with
    | ok b d' =>
      rw [ht, hr] at h
      cases h
    | error e' d' =>
      rw [ht, hr] at h
      exact h

/-- The result of the tree read alone is used. -/
theorem Follows.map_tree {f : α → γ} {R : γ → β → Decoder → Prop} {t : TreeRead α} {r : Read β}
    {p : Place} {d : Decoder} (h : Follows P (t p) (r d))
    (hf : ∀ a b d', P a b d' → R (f a) b d') :
    Follows R ((do return f (← t) : TreeRead γ) p) (r d) := by
  rw [TreeRead.bind_eq]
  cases ht : t p <;> cases hr : r d <;> rw [ht, hr] at h
  · exact ⟨h.1, hf _ _ _ h.2⟩
  · cases h
  · cases h
  · exact h

end Follows

/-! ## One fixed part -/

theorem collecting_eq {α : Type} (r : Read α) (d : Decoder) :
    collecting r d = match r { d with pending := [] } with
      | .ok a d' => .ok (a, d'.pending) { d' with pending := d.pending }
      | .error e d' => .error e d' := by
  unfold collecting
  change (modify (fun d : Decoder => { d with pending := [] }) >>= fun _ => r >>= fun a =>
    get >>= fun d' : Decoder => modify (fun d' : Decoder => { d' with pending := d.pending })
      >>= fun _ => pure (a, d'.pending) : Read (α × List Pending)) d = _
  rw [Read.bind_eq]
  change (r >>= _) { d with pending := [] } = _
  rw [Read.bind_eq]
  cases r { d with pending := [] } <;> rfl

/-- A fixed part was read at `d`, and its targets are announced: the slots for them follow those
that were there. -/
structure Announced (g : Grammar) (l : Layout) (d : Decoder)
    (fixed : Value × List (UInt32 × Layout)) (read : Value × List Pending) (d' : Decoder) :
    Prop where
  value : read.1 = fixed.1.shift d.arena.length
  targets : read.2 = announced d.arena.length fixed.2
  isOpen : Open g l read.1 d.arena.length (fixed.2.map (·.2))
  pending : d'.pending = d.pending
  arena : d'.arena = d.arena ++ fixed.2.map fun t => ⟨t.1, none⟩
  rest : d'.rest.length + 4 * fixed.2.length ≤ d.rest.length

theorem map_announced (slot : Nat) (ts : List (UInt32 × Layout)) :
    (announced slot ts).map (fun t => (t.id, t.layout)) = ts := by
  induction ts generalizing slot with
  | nil => rfl
  | cons t ts ih => rw [announced, List.map_cons, ih]

/-- The same read with other errors. -/
def wrapping {α : Type} (wrap : Error → Error) (r : Read α) : Read α := fun d =>
  match r d with
  | .ok a d => .ok a d
  | .error e d => .error (wrap e) d

theorem collecting_follows (g : Grammar) (wrap : Error → Error) (l : Layout) (d : Decoder) :
    Follows (Announced g l d) (l.readFixed g wrap d.place)
      (collecting (wrapping wrap (l.read g)) d) := by
  have hunder : ({ d with pending := [] } : Decoder) = d.place.decoder.under d.arena := by
    unfold Decoder.under Place.decoder Decoder.place
    rw [List.append_nil]
    rfl
  have huniform := Layout.uniform_read g l d.arena d.place.decoder
  rw [← hunder] at huniform
  rw [collecting_eq]
  unfold Layout.readFixed wrapping
  rw [huniform]
  cases hread : l.read g d.place.decoder with
  | error e d' => exact ⟨rfl, rfl⟩
  | ok v d' =>
    rw [hread] at huniform
    obtain ⟨ts, hprogress, hopen⟩ := Layout.announces_read g l _ _ _ huniform
    have htargets : d'.pending.map (fun t => (t.id, t.layout)) = ts := by
      have hmap := congrArg (List.map fun t : Pending => (t.id, t.layout)) hprogress.pending
      rw [List.nil_append, map_announced] at hmap
      rw [← hmap]
      simp only [Decoder.under, List.map_map]
      rfl
    refine ⟨rfl, rfl, ?_, ?_, rfl, ?_, ?_⟩
    · rw [htargets]
      exact hprogress.pending
    · rw [htargets]
      exact hopen
    · rw [htargets]
      exact hprogress.arena
    · rw [htargets]
      obtain ⟨bs, hrest, -, hlength⟩ := hprogress.moves
      have hlengths := congrArg List.length hrest
      rw [List.length_append] at hlengths
      change d.rest.length = bs.length + d'.rest.length at hlengths
      change d'.rest.length + 4 * ts.length ≤ d.rest.length
      omega

/-! ## Targets -/

/-- Trees were read at `d` into the slots from `slot` on. What they hold is in new slots, and all
other slots are as they were. -/
structure Planted (g : Grammar) (slot : Nat) (ls : List Layout) (d : Decoder) (trees : List Value)
    (d' : Decoder) : Prop where
  pending : d'.pending = d.pending
  rest : d'.rest.length ≤ d.rest.length
  length : d.arena.length ≤ d'.arena.length
  content : ∀ i, i < d.arena.length → i < slot ∨ slot + ls.length ≤ i →
    d'.arena.content i = d.arena.content i
  forest : Forest g d'.arena.content slot ls trees d.arena.length d'.arena.length

theorem Planted.nil (g : Grammar) (slot : Nat) (d : Decoder) : Planted g slot [] d [] d :=
  ⟨rfl, Nat.le_refl _, Nat.le_refl _, fun _ _ _ => rfl, .nil slot _⟩

theorem Planted.cons {g : Grammar} {slot : Nat} {l : Layout} {ls : List Layout} {t : Value}
    {ts : List Value} {d d₁ d₂ : Decoder} (h : Planted g slot [l] d [t] d₁)
    (hrest : Planted g (slot + 1) ls d₁ ts d₂) (hslots : slot + 1 + ls.length ≤ d.arena.length) :
    Planted g slot (l :: ls) d (t :: ts) d₂ := by
  have hlength := h.length
  refine ⟨hrest.pending.trans h.pending, Nat.le_trans hrest.rest h.rest,
    Nat.le_trans hlength hrest.length, ?_, ?_⟩
  · intro i hi hout
    rw [List.length_cons] at hout
    refine (hrest.content i (by omega) (by omega)).trans (h.content i hi ?_)
    rw [List.length_singleton]
    omega
  · cases h.forest with
    | cons hcontent hopen hbelow hσ hnil =>
      cases hnil
      have hforest := hrest.forest
      have hle := hbelow.le
      refine .cons ?_ hopen (hbelow.congr ?_ ?_) hσ hforest
      · exact (hrest.content slot (by omega) (by omega)).trans hcontent
      · intro i hlo hhi
        exact hrest.content i (by omega) (by omega)
      · intro i hlo hhi
        exact hrest.content i hhi (by omega)

/-- Targets in a row, when each of them can be read. -/
theorem forM_follows {g : Grammar} {f : UInt32 × Layout → TreeRead Value}
    {target : Pending → Read Unit} {n : Nat}
    (htarget : ∀ id l slot d, d.rest.length < n → slot < d.arena.length →
      Follows (fun t _ d' => Planted g slot [l] d [t] d') (f (id, l) d.place)
        (target ⟨id, slot, l⟩ d))
    (ts : List (UInt32 × Layout)) {slot : Nat} {d : Decoder}
    (hn : 0 < ts.length → d.rest.length < n) (hslots : slot + ts.length ≤ d.arena.length) :
    Follows (fun trees _ d' => Planted g slot (ts.map (·.2)) d trees d') (ts.mapM f d.place)
      ((announced slot ts).forM target d) := by
  induction ts generalizing slot d with
  | nil => exact ⟨rfl, Planted.nil g slot d⟩
  | cons t ts ih =>
    obtain ⟨id, l⟩ := t
    rw [List.length_cons] at hn hslots
    rw [List.mapM_cons]
    change Follows _ _ ((target ⟨id, slot, l⟩ >>= fun _ => (announced (slot + 1) ts).forM target) d)
    refine (htarget id l slot d (by omega) (by omega)).bind fun first _ d₁ h => ?_
    have hlength := h.length
    have hrest := h.rest
    have hnext : Follows (fun trees _ d' => Planted g (slot + 1) (ts.map (·.2)) d₁ trees d')
        (ts.mapM f d₁.place) ((announced (slot + 1) ts).forM target d₁) :=
      ih (fun _ => by omega) (by omega)
    exact hnext.map_tree fun trees _ d₂ htrees => h.cons htrees (by rw [List.length_map]; omega)

theorem Arena.length_fill (a : Arena) (slot : Nat) (l : Layout) (v : Value) :
    List.length (a.fill slot l v) = a.length := List.length_modify ..

theorem Arena.content_fill_self {a : Arena} {slot : Nat} (h : slot < a.length) (l : Layout)
    (v : Value) : (a.fill slot l v).content slot = some (l, v) := by
  unfold Arena.content fill
  rw [List.getElem?_modify, List.getElem?_eq_getElem h]
  simp only [Option.map_eq_map, Option.map_some, Option.bind_some, if_true]

theorem Arena.content_fill_of_ne {a : Arena} {slot i : Nat} (h : i ≠ slot) (l : Layout)
    (v : Value) : (a.fill slot l v).content i = a.content i := by
  unfold Arena.content fill
  rw [List.getElem?_modify]
  cases a[i]? with
  | none => rfl
  | some s => simp only [Ne.symm h, Option.map_eq_map, Option.map_some, if_false]

theorem Arena.content_append_left {a b : Arena} {i : Nat} (h : i < a.length) :
    Arena.content (a ++ b) i = a.content i := by
  unfold Arena.content
  rw [List.getElem?_append_left h]

theorem assigns_branch_append (n : Nat) (trees rest : List Value) :
    Assigns (fun slot => branch (trees ++ rest) (slot - n)) (n + trees.length) rest := by
  induction rest generalizing trees with
  | nil => trivial
  | cons t rest ih =>
    refine ⟨?_, ?_⟩
    · simp [branch]
    · have hnext := ih (trees ++ [t])
      rw [List.append_assoc, List.length_append, List.length_singleton] at hnext
      exact hnext

theorem assigns_branch (n : Nat) (trees : List Value) :
    Assigns (fun slot => branch trees (slot - n)) n trees := assigns_branch_append n [] trees

theorem readTree_succ (g : Grammar) (m : Nat) (wrap : Error → Error) (l : Layout) :
    readTree g (m + 1) wrap l = (l.readFixed g wrap >>= fun fixed =>
      fixed.2.mapM (fun t => readTree g m (inReferent t.1) t.2) >>= fun trees =>
        pure (fixed.1.fill (branch trees))) := by
  rw [readTree]

theorem readTarget_succ (g : Grammar) (n : Nat) (p : Pending) :
    readTarget g (n + 1) p =
      (collecting (wrapping (inReferent p.id) (p.layout.read g)) >>= fun read =>
        read.2.forM (readTarget g n) >>= fun _ => modify fun d =>
          { d with arena := d.arena.fill p.slot p.layout read.1 }) := by
  rw [readTarget]
  have hwrap : (fun d => match p.layout.read g d with
      | .ok v d => .ok v d
      | .error e d => .error (inReferent p.id e) d : Read Value)
      = wrapping (inReferent p.id) (p.layout.read g) := by
    funext d
    unfold wrapping
    cases p.layout.read g d <;> rfl
  exact congrArg (fun r : Read Value => collecting r >>= fun read =>
    read.2.forM (readTarget g n) >>= fun _ => modify fun d =>
      { d with arena := d.arena.fill p.slot p.layout read.1 }) hwrap

/-- A target whose own targets were planted behind the arena is planted itself. -/
theorem Planted.fill {g : Grammar} {l : Layout} {v : Value} {ts : List (UInt32 × Layout)}
    {slot : Nat} {trees : List Value} {d d₁ d₂ : Decoder}
    (hfixed : Announced g l d (v, ts) (v.shift d.arena.length, announced d.arena.length ts) d₁)
    (h : Planted g d.arena.length (ts.map (·.2)) d₁ trees d₂) (hslot : slot < d.arena.length) :
    Planted g slot [l] d [v.fill (branch trees)]
      { d₂ with arena := d₂.arena.fill slot l (v.shift d.arena.length) } := by
  obtain ⟨-, -, hopen, hpending, harena, hrest⟩ := hfixed
  have hlength : d₁.arena.length = d.arena.length + (ts.map (·.2)).length := by
    rw [harena, List.length_append, List.length_map, List.length_map]
  have hlength₂ := h.length
  have hrest₂ := h.rest
  refine ⟨h.pending.trans hpending, ?_, ?_, ?_, ?_⟩
  · exact Nat.le_trans hrest₂ (by omega)
  · exact Nat.le_trans (by omega) (Nat.le_of_eq (Arena.length_fill ..).symm)
  · intro i hi hout
    rw [List.length_singleton] at hout
    refine (Arena.content_fill_of_ne (by omega) ..).trans ?_
    refine (h.content i (by omega) (Or.inl hi)).trans ?_
    rw [harena]
    exact Arena.content_append_left hi
  · have hroot : (d₂.arena.fill slot l (v.shift d.arena.length)).content slot
        = some (l, v.shift d.arena.length) := Arena.content_fill_self (by omega) ..
    have hothers : ∀ i, i ≠ slot → (d₂.arena.fill slot l (v.shift d.arena.length)).content i
        = d₂.arena.content i := fun i hi => Arena.content_fill_of_ne hi ..
    have hbelow := h.forest.congr (fun i hlo _ => hothers i (by omega))
      (fun i hlo _ => hothers i (by omega))
    rw [hlength] at hbelow
    have hforest := Forest.cons hroot hopen hbelow (assigns_branch _ trees) (.nil (slot + 1) _)
    rw [Value.fill_shift] at hforest
    simp only [Nat.add_sub_cancel_left] at hforest
    rw [Arena.length_fill]
    exact hforest

/-- Step and run in one: a target is read as a tree, and planted into its slot. -/
theorem readTarget_follows (g : Grammar) (m n : Nat) (id : UInt32) (l : Layout) (slot : Nat)
    (d : Decoder) (hm : d.rest.length < m) (hn : d.rest.length < n)
    (hslot : slot < d.arena.length) :
    Follows (fun t _ d' => Planted g slot [l] d [t] d')
      (readTree g m (inReferent id) l d.place) (readTarget g n ⟨id, slot, l⟩ d) := by
  induction m generalizing n id l slot d with
  | zero => omega
  | succ m ih =>
    obtain ⟨n, rfl⟩ : ∃ k, n = k + 1 := ⟨n - 1, by omega⟩
    rw [readTree_succ, readTarget_succ]
    refine (collecting_follows g (inReferent id) l d).bind ?_
    rintro ⟨v, ts⟩ ⟨v', ps⟩ d₁ hfixed
    have ⟨hv, hps, _, _, harena, hrest⟩ := hfixed
    dsimp only at hv hps harena hrest ⊢
    subst hv hps
    have hlength : d₁.arena.length = d.arena.length + ts.length := by
      rw [harena, List.length_append, List.length_map]
    -- Each target took four bytes, so the depth that is left is enough for it.
    have htarget : ∀ id l slot (d : Decoder), d.rest.length < min m n → slot < d.arena.length →
        Follows (fun t _ d' => Planted g slot [l] d [t] d')
          (readTree g m (inReferent id) l d.place) (readTarget g n ⟨id, slot, l⟩ d) :=
      fun id l slot d hd hslot => ih n id l slot d (by omega) (by omega) hslot
    have htargets := forM_follows (f := fun t => readTree g m (inReferent t.1) t.2) htarget ts
      (d := d₁) (fun hts => by omega) (Nat.le_of_eq hlength.symm)
    exact htargets.bind fun trees _ d₂ h => ⟨rfl, Planted.fill hfixed h hslot⟩

/-- Nothing new is pending, and the slots that were there hold what they held. -/
structure Decoder.KeptIn (d d' : Decoder) : Prop where
  pending : d'.pending = d.pending
  length : d.arena.length ≤ d'.arena.length
  content : ∀ i, i < d.arena.length → d'.arena.content i = d.arena.content i

/-- A construct is read in three steps: its fixed part, the targets, and what binds them. -/
theorem readConstruct_of_steps {g : Grammar} {l : Layout} {d d₁ d₂ d₃ : Decoder} {v t : Value}
    (hfixed : l.read g { d with pending := [] } = .ok v d₁)
    (htargets : readTargets g d₁.pending { d₁ with pending := d.pending } = .ok () d₂)
    (hbind : bind g l v d₂ = .ok t d₃) : readConstruct g l d = .ok t d₃ := by
  refine Read.bind_ok_iff.mpr ⟨(v, d₁.pending), { d₁ with pending := d.pending }, ?_, ?_⟩
  · rw [collecting_eq, hfixed]
  · exact Read.bind_ok_iff.mpr ⟨(), d₂, htargets, hbind⟩

theorem readBound_eq {α : Type} (g : Grammar) (l : Layout) (k : Value → Read α) :
    readBound g l k = readBound g l pure >>= k := by
  unfold readBound
  simp only [bind_assoc, pure_bind]

/-- What is read for a construct is read as a tree, and can be bound to it. -/
theorem readBound_follows (g : Grammar) (l : Layout) (depth : Nat) (d : Decoder)
    (hdepth : d.rest.length < depth) :
    Follows (fun t v d' => ∃ d'', bind g l v d' = .ok t d'' ∧ d''.place = d'.place ∧ d.KeptIn d'')
      (readTree g depth id l d.place) (readBound g l pure d) := by
  obtain ⟨m, rfl⟩ : ∃ k, depth = k + 1 := ⟨depth - 1, by omega⟩
  rw [readTree_succ]
  have hwrap : wrapping id (l.read g) = l.read g := by
    funext d
    unfold wrapping
    cases l.read g d <;> rfl
  have hfollows := collecting_follows g id l d
  rw [hwrap] at hfollows
  refine hfollows.bind ?_
  rintro ⟨v, ts⟩ ⟨v', ps⟩ d₁ ⟨hv, hps, hopen, hpending, harena, hrest⟩
  dsimp only at hv hps hopen harena hrest ⊢
  subst hv hps
  have hlength : d₁.arena.length = d.arena.length + ts.length := by
    rw [harena, List.length_append, List.length_map]
  have htarget : ∀ id l slot (d : Decoder), d.rest.length < min m (d₁.rest.length + 1) →
      slot < d.arena.length → Follows (fun t _ d' => Planted g slot [l] d [t] d')
        (readTree g m (inReferent id) l d.place)
        (readTarget g (d₁.rest.length + 1) ⟨id, slot, l⟩ d) :=
    fun id l slot d hd hslot => readTarget_follows g _ _ id l slot d (by omega) (by omega) hslot
  have htargets := forM_follows (f := fun t => readTree g m (inReferent t.1) t.2) htarget ts
    (d := d₁) (fun hts => by omega) (Nat.le_of_eq hlength.symm)
  refine htargets.bind fun trees _ d₂ h => ?_
  -- The slots of the targets hold a forest; binding takes its trees.
  obtain ⟨a, hresolves, hharvest⟩ := h.forest.resolves (d := d₂) d₂.arena.length
    (fun _ _ _ => rfl) (fun _ _ _ => rfl) (by rw [List.length_map]; omega) (by omega)
    (assigns_branch d.arena.length trees)
  have hbind := Layout.bindWith_open l hopen hresolves
  rw [Value.fill_shift] at hbind
  simp only [Nat.add_sub_cancel_left] at hbind
  have hlength₂ := h.length
  refine ⟨rfl, { d₂ with arena := a }, hbind, rfl, h.pending.trans hpending, ?_, fun i hi => ?_⟩
  · exact Nat.le_trans (by omega) (Nat.le_of_eq hharvest.length.symm)
  · refine (hharvest.content i (Or.inl hi)).trans ?_
    refine (h.content i (by omega) (Or.inl hi)).trans ?_
    rw [harena]
    exact Arena.content_append_left hi

/-- **A construct is read as a tree.** What was read before makes no difference, and it is left as it
was. -/
theorem readConstruct_follows (g : Grammar) (l : Layout) (depth : Nat) (d : Decoder)
    (hdepth : d.rest.length < depth) :
    Follows (fun t v d' => v = t ∧ d.KeptIn d') (readTree g depth id l d.place)
      (readConstruct g l d) := by
  have hbind := (readBound_follows g l depth d hdepth).bind (f := pure) (k := bind g l)
    (Q := fun t v d' => v = t ∧ d.KeptIn d') ?_
  · rw [bind_pure, ← readBound_eq] at hbind
    exact hbind
  · rintro t v d' ⟨d'', hbind, hplace, hkept⟩
    rw [hbind]
    exact ⟨hplace, rfl, hkept⟩

end RemoteCall.Ndr
