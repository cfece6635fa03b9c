import Mathlib.Data.List.Forall2
import RemoteCall.Proofs.Ndr.Plain
import RemoteCall.Proofs.Ndr.Tree

/-! What is written is read back. A fixed part is read back up to its pointers: they are deferred,
and what waits on the writing side is announced on the reading side, in the same order. A complete
construct is read back as a tree, since each target that waits is a construct of its own. -/

namespace RemoteCall.Ndr

/-! ## The cursor -/

/-- The cursor has moved over those bytes, and does not hand out null as an id. -/
structure Cursor.Advances (c c' : Cursor) (bs : List UInt8) : Prop where
  length : c'.length = c.length + bs.length
  nextId : c.nextId ≠ 0 → c'.nextId ≠ 0

theorem Cursor.Advances.refl (c : Cursor) : c.Advances c [] := ⟨rfl, id⟩

theorem Cursor.Advances.trans {c c' c'' : Cursor} {bs cs : List UInt8} (h : c.Advances c' bs)
    (h' : c'.Advances c'' cs) : c.Advances c'' (bs ++ cs) := by
  refine ⟨?_, fun hid => h'.nextId (h.nextId hid)⟩
  rw [h'.length, h.length, List.length_append, Nat.add_assoc]

theorem Cursor.followingId_ne_zero (id : UInt32) : followingId id ≠ 0 := by
  unfold followingId
  dsimp only
  split
  · decide
  · next h =>
    intro hzero
    rw [hzero] at h
    exact h (by decide)

/-! ## Reading a fixed part back -/

/-- A read takes those bytes and announces a target for each of `ts`. When `σ` assigns these to the
slots, what was read is as `Q` says. -/
def Restores {α : Type} (r : Read α) (position : Nat) (bs : List UInt8) (ts : List (Layout × Value))
    (Q : (Nat → Value) → α → Prop) : Prop :=
  ∀ (rest : List UInt8) (d : Decoder), d.rest = bs ++ rest → d.position = position →
    ∃ a d' us, r d = .ok a d' ∧ d'.rest = rest ∧ Progress d d' us ∧
      us.map (·.2) = ts.map (·.1) ∧ ∀ σ, Assigns σ d.arena.length (ts.map (·.2)) → Q σ a

theorem Progress.position {d d' : Decoder} {us : List (UInt32 × Layout)} {bs : List UInt8}
    (h : Progress d d' us) (hrest : d.rest = bs ++ d'.rest) :
    d'.position = d.position + bs.length := by
  obtain ⟨cs, hcs, hposition, -⟩ := h.moves
  have hbs : bs = cs := List.append_cancel_right (hrest.symm.trans hcs)
  rw [hposition, hbs]

theorem assigns_append {σ : Nat → Value} {slot : Nat} {ts us : List Value} :
    Assigns σ slot (ts ++ us) ↔ Assigns σ slot ts ∧ Assigns σ (slot + ts.length) us := by
  induction ts generalizing slot with
  | nil => exact ⟨fun h => ⟨trivial, h⟩, fun h => h.2⟩
  | cons t ts ih =>
    rw [List.cons_append, List.length_cons,
      show slot + (ts.length + 1) = slot + 1 + ts.length by omega]
    change σ slot = t ∧ Assigns σ (slot + 1) (ts ++ us) ↔
      (σ slot = t ∧ Assigns σ (slot + 1) ts) ∧ _
    rw [ih, and_assoc]

section Restores

variable {α β γ : Type} {r : Read α} {position : Nat} {bs cs : List UInt8} {a : α}
  {ts us : List (Layout × Value)} {P : (Nat → Value) → α → Prop} {Q : (Nat → Value) → β → Prop}
  {R : (Nat → Value) → γ → Prop}

/-- A plain read and what follows it. -/
theorem Gets.restores {f : α → Read β} (hr : Gets r position bs a)
    (hf : Restores (f a) (position + bs.length) cs ts Q) :
    Restores (r >>= f) position (bs ++ cs) ts Q := by
  intro rest d hrest hposition
  rw [List.append_assoc] at hrest
  let d₁ : Decoder := { d with rest := cs ++ rest, position := position + bs.length }
  have hread : r d = .ok a d₁ := hr.read hrest hposition
  obtain ⟨b, d', us, hb, hrest', hprogress, hus, hq⟩ := hf rest d₁ rfl rfl
  refine ⟨b, d', us, Read.bind_ok_iff.mpr ⟨a, d₁, hread, hb⟩, hrest', ?_, hus, hq⟩
  have hmoves : Moves d d₁ 0 := ⟨bs, hrest, by rw [hposition], Nat.zero_le _⟩
  have hstep : Progress d d₁ [] := ⟨hmoves, (List.append_nil _).symm, (List.append_nil _).symm⟩
  exact hstep.trans hprogress

theorem restores_pure {b : β} (h : ∀ σ, Q σ b) : Restores (pure b : Read β) position [] [] Q := by
  intro rest d hrest _
  exact ⟨b, d, [], rfl, hrest, Progress.refl d, rfl, fun σ _ => h σ⟩

theorem Restores.map {k : α → β} (h : Restores r position bs ts P) (hk : ∀ σ a, P σ a → Q σ (k a)) :
    Restores (do return k (← r)) position bs ts Q := by
  intro rest d hrest hposition
  obtain ⟨a, d', us, ha, hrest', hprogress, hus, hp⟩ := h rest d hrest hposition
  exact ⟨k a, d', us, Read.bind_ok_iff.mpr ⟨a, d', ha, rfl⟩, hrest', hprogress, hus,
    fun σ hσ => hk σ a (hp σ hσ)⟩

/-- Two fixed parts, one after the other. -/
theorem Restores.append {r' : Read β} {k : α → β → γ} (h : Restores r position bs ts P)
    (h' : Restores r' (position + bs.length) cs us Q) (hk : ∀ σ a b, P σ a → Q σ b → R σ (k a b)) :
    Restores (do let a ← r; let b ← r'; return k a b) position (bs ++ cs) (ts ++ us) R := by
  intro rest d hrest hposition
  rw [List.append_assoc] at hrest
  obtain ⟨a, d₁, vs, ha, hrest₁, hprogress₁, hvs, hp⟩ := h (cs ++ rest) d hrest hposition
  rw [← hrest₁] at hrest
  have hposition₁ := hprogress₁.position hrest
  rw [hposition] at hposition₁
  obtain ⟨b, d₂, ws, hb, hrest₂, hprogress₂, hws, hq⟩ := h' rest d₁ hrest₁ hposition₁
  refine ⟨k a b, d₂, vs ++ ws, ?_, hrest₂, hprogress₁.trans hprogress₂, ?_, ?_⟩
  · exact Read.bind_ok_iff.mpr ⟨a, d₁, ha, Read.bind_ok_iff.mpr ⟨b, d₂, hb, rfl⟩⟩
  · rw [List.map_append, List.map_append, hvs, hws]
  · intro σ hσ
    rw [List.map_append, assigns_append] at hσ
    refine hk σ a b (hp σ hσ.1) (hq σ ?_)
    rw [hprogress₁.length_arena, hvs, List.length_map]
    rw [List.length_map] at hσ
    exact hσ.2

end Restores

/-! ## Pointers -/

/-- The value that is read binds to `v`. -/
def BindsTo (v : Value) (σ : Nat → Value) (read : Value) : Prop := read.fill σ = v

/-- The values that are read bind to `vs`. -/
def AllBindTo (vs : List Value) (σ : Nat → Value) (reads : List Value) : Prop :=
  reads.map (Value.fill σ) = vs

theorem restores_pointer {id : UInt32} (hid : id ≠ 0) (target : Layout) (t : Value)
    {position : Nat} {gap : List UInt8} (hgap : gap.length = gapLength 4 position) :
    Restores (readPointer target) position (gap ++ dword id) [(target, t)]
      (BindsTo (.pointer t)) := by
  intro rest d hrest hposition
  have hread := (gets_u32_behind hgap id).read hrest hposition
  have hlength : 4 ≤ (gap ++ dword id).length := by
    rw [List.length_append]
    exact Nat.le_add_left 4 _
  refine ⟨_, _, [(id, target)], Read.bind_ok_iff.mpr ⟨id, _, hread, announce_of_ne hid target _⟩,
    rfl, ⟨⟨_, hrest, by rw [hposition], hlength⟩, rfl, rfl⟩, rfl, fun σ hσ => ?_⟩
  exact congrArg Value.pointer hσ.1

/-! ## Reading trees back -/

/-- The bytes at that position are read as that tree, whatever follows them. -/
def TreeAt (g : Grammar) (l : Layout) (t : Value) (position : Nat) (bs : List UInt8) : Prop :=
  ∀ (depth : Nat) (wrap : Error → Error) (rest : List UInt8), (bs ++ rest).length < depth →
    readTree g depth wrap l ⟨bs ++ rest, position⟩ = .ok t ⟨rest, position + bs.length⟩

/-- One after the other, they are read as those trees. -/
inductive TreesAt (g : Grammar) : List (Layout × Value) → (position : Nat) → List UInt8 → Prop
  | nil (position : Nat) : TreesAt g [] position []
  | cons {t : Layout × Value} {ts : List (Layout × Value)} {position : Nat} {bs cs : List UInt8}
      (h : TreeAt g t.1 t.2 position bs) (hrest : TreesAt g ts (position + bs.length) cs) :
      TreesAt g (t :: ts) position (bs ++ cs)

section Trees

variable {g : Grammar} {l : Layout} {v : Value} {position : Nat} {bs cs : List UInt8}
  {ts : List (Layout × Value)}

theorem TreesAt.mapM (h : TreesAt g ts position bs) {depth : Nat} {us : List (UInt32 × Layout)}
    {rest : List UInt8} (hus : us.map (·.2) = ts.map (·.1))
    (hdepth : 0 < us.length → (bs ++ rest).length < depth) :
    us.mapM (fun u => readTree g depth (inReferent u.1) u.2) ⟨bs ++ rest, position⟩
      = .ok (ts.map (·.2)) ⟨rest, position + bs.length⟩ := by
  induction h generalizing us with
  | nil =>
    rw [List.map_nil, List.map_eq_nil_iff] at hus
    rw [hus]
    rfl
  | @cons t ts position bs cs htree _ ih =>
    obtain ⟨u, us, rfl, hu, hus⟩ := List.map_eq_cons_iff.mp hus
    have hlength := hdepth (Nat.succ_pos _)
    rw [List.append_assoc] at hlength ⊢
    have hfirst := htree depth (inReferent u.1) (cs ++ rest) hlength
    have hnext := ih hus fun _ => by
      rw [List.length_append] at hlength
      omega
    rw [List.mapM_cons]
    refine (TreeRead.bind_eq _ _ _).trans ?_
    rw [hu, hfirst]
    refine (TreeRead.bind_eq _ _ _).trans ?_
    rw [hnext, List.length_append, Nat.add_assoc]
    rfl

/-- The fixed part on its own: what it announces is what the trees of `ts` are read for. Each target
took the four bytes of its id. -/
theorem Restores.readFixed (h : Restores (l.read g) position bs ts (BindsTo v))
    (wrap : Error → Error) (rest : List UInt8) :
    ∃ v' us, l.readFixed g wrap ⟨bs ++ rest, position⟩
        = .ok (v', us) ⟨rest, position + bs.length⟩ ∧
      us.map (·.2) = ts.map (·.1) ∧ 4 * us.length ≤ bs.length ∧
      v'.fill (branch (ts.map (·.2))) = v := by
  obtain ⟨v', d', us, hread, hrest, hprogress, hus, hbinds⟩ :=
    h rest ⟨bs ++ rest, position, [], []⟩ rfl rfl
  have htaken : bs ++ rest = bs ++ d'.rest := by rw [hrest]
  have hposition := hprogress.position htaken
  have htargets : d'.pending.map (fun t => (t.id, t.layout)) = us := by
    rw [hprogress.pending, List.nil_append, map_announced]
  have hplace : d'.place = ⟨rest, position + bs.length⟩ := by
    unfold Decoder.place
    rw [hrest, hposition]
  refine ⟨v', us, ?_, hus, ?_, hbinds _ (assigns_branch 0 (ts.map (·.2)))⟩
  · unfold Layout.readFixed Place.decoder
    rw [hread, ← htargets, ← hplace]
  · obtain ⟨cs, hcs, -, hlength⟩ := hprogress.moves
    have hbs : bs = cs := List.append_cancel_right (htaken.symm.trans hcs)
    rw [hbs]
    exact hlength

/-- A fixed part that is read back makes a tree, with the trees that are read for its targets. -/
theorem Restores.treeAt (h : Restores (l.read g) position bs ts (BindsTo v))
    (htrees : TreesAt g ts (position + bs.length) cs) : TreeAt g l v position (bs ++ cs) := by
  intro depth wrap rest hdepth
  obtain ⟨depth, rfl⟩ : ∃ k, depth = k + 1 := ⟨depth - 1, by omega⟩
  rw [List.append_assoc] at hdepth ⊢
  rw [List.length_append] at hdepth
  obtain ⟨v', us, hread, hus, hlength, hv⟩ := h.readFixed wrap (cs ++ rest)
  rw [readTree_succ]
  refine (TreeRead.bind_eq _ _ _).trans ?_
  rw [hread]
  refine (TreeRead.bind_eq _ _ _).trans ?_
  rw [htrees.mapM hus fun _ => by omega, ← hv, List.length_append, Nat.add_assoc]
  rfl

end Trees

/-! ## Writers -/

/-- A writer writes what is read back as that tree. -/
def Writes (g : Grammar) (w : Writer) (l : Layout) (t : Value) : Prop :=
  ∀ c : Cursor, c.nextId ≠ 0 → ∃ bs c', w c = .ok (bs, c') ∧ c.Advances c' bs ∧
    ∀ (depth : Nat) (wrap : Error → Error) (rest : List UInt8), (bs ++ rest).length < depth →
      readTree g depth wrap l ⟨bs ++ rest, c.length⟩ = .ok t ⟨rest, c'.length⟩

/-- A fixed part is written that is read back, and what waits is read back as the trees that the
read announces. -/
def Mirrors {α : Type} (g : Grammar) (w : PartWriter) (r : Read α)
    (Q : (Nat → Value) → α → Prop) : Prop :=
  ∀ c : Cursor, c.nextId ≠ 0 → ∃ part ts, w c = .ok part ∧ c.Advances part.cursor part.bytes ∧
    List.Forall₂ (fun w t => Writes g w t.1 t.2) part.waiting ts ∧
    Restores r c.length part.bytes ts Q

section Mirrors

variable {α β γ : Type} {g : Grammar} {r : Read α} {w w' : PartWriter} {bs : List UInt8} {a : α}
  {P : (Nat → Value) → α → Prop} {Q : (Nat → Value) → β → Prop} {R : (Nat → Value) → γ → Prop}

theorem put_advances (alignment : Nat) (bs : List UInt8) (c : Cursor) :
    ∃ c', put alignment bs c = .ok ⟨paddingBytes alignment c.length ++ bs, [], c'⟩ ∧
      c.Advances c' (paddingBytes alignment c.length ++ bs) :=
  ⟨_, rfl, rfl, id⟩

/-- What is put is read first, and what is written behind it is read next. -/
theorem Mirrors.after_put {alignment : Nat} {f : α → Read β}
    (hr : ∀ position, Gets r position (paddingBytes alignment position ++ bs) a)
    (h : Mirrors g w (f a) Q) : Mirrors g ((put alignment bs).append w) (r >>= f) Q := by
  intro c hc
  obtain ⟨c₁, hput, hadvance⟩ := put_advances alignment bs c
  obtain ⟨part, ts, hpart, hadvance', hwaiting, hread⟩ := h c₁ (hadvance.nextId hc)
  rw [hadvance.length] at hread
  refine ⟨⟨(paddingBytes alignment c.length ++ bs) ++ part.bytes, part.waiting, part.cursor⟩, ts,
    ?_, hadvance.trans hadvance', hwaiting, (hr c.length).restores hread⟩
  unfold PartWriter.append
  rw [hput]
  change (w c₁ >>= fun b => _) = _
  rw [hpart]
  rfl

/-- A value that has no pointers is put at once. -/
theorem mirrors_put {alignment : Nat}
    (hr : ∀ position, Gets r position (paddingBytes alignment position ++ bs) a)
    (hp : ∀ σ, P σ a) : Mirrors g (put alignment bs) r P := by
  intro c _
  obtain ⟨c', hput, hadvance⟩ := put_advances alignment bs c
  have hread := (hr c.length).restores (f := pure) (restores_pure hp)
  rw [List.append_nil, bind_pure] at hread
  exact ⟨_, [], hput, hadvance, .nil, hread⟩

theorem Mirrors.map {k : α → β} (h : Mirrors g w r P) (hk : ∀ σ a, P σ a → Q σ (k a)) :
    Mirrors g w (do return k (← r)) Q := by
  intro c hc
  obtain ⟨part, ts, hpart, hadvance, hwaiting, hread⟩ := h c hc
  exact ⟨part, ts, hpart, hadvance, hwaiting, hread.map hk⟩

theorem Mirrors.append {r' : Read β} {k : α → β → γ} (h : Mirrors g w r P)
    (h' : Mirrors g w' r' Q) (hk : ∀ σ a b, P σ a → Q σ b → R σ (k a b)) :
    Mirrors g (w.append w') (do let a ← r; let b ← r'; return k a b) R := by
  intro c hc
  obtain ⟨part, ts, hpart, hadvance, hwaiting, hread⟩ := h c hc
  obtain ⟨part', us, hpart', hadvance', hwaiting', hread'⟩ := h' part.cursor (hadvance.nextId hc)
  rw [hadvance.length] at hread'
  refine ⟨⟨part.bytes ++ part'.bytes, part.waiting ++ part'.waiting, part'.cursor⟩, ts ++ us, ?_,
    hadvance.trans hadvance', List.rel_append hwaiting hwaiting', hread.append hread' hk⟩
  unfold PartWriter.append
  rw [hpart]
  change (w' part.cursor >>= fun b => _) = _
  rw [hpart']
  rfl

/-- A pointer is put, and its target waits. -/
theorem mirrors_embed {target : Layout} {t : Value} (h : Writes g (complete w) target t) :
    Mirrors g (embed w) (readPointer target) (BindsTo (.pointer t)) := by
  intro c hc
  refine ⟨_, [(target, t)], rfl, ⟨rfl, fun _ => Cursor.followingId_ne_zero c.nextId⟩,
    .cons h .nil, ?_⟩
  exact restores_pointer hc target t (length_paddingBytes 4 c.length)

end Mirrors

/-! ## Complete constructs -/

/-- What waits is written in order, and read back in the same order. -/
theorem sequence_treesAt {g : Grammar} {ws : List Writer} {ts : List (Layout × Value)}
    (h : List.Forall₂ (fun w t => Writes g w t.1 t.2) ws ts) (c : Cursor) (hc : c.nextId ≠ 0) :
    ∃ bs c', sequence ws c = .ok (bs, c') ∧ c.Advances c' bs ∧ TreesAt g ts c.length bs := by
  induction h generalizing c with
  | nil => exact ⟨[], c, rfl, Cursor.Advances.refl c, .nil _⟩
  | @cons w t ws ts hw _ ih =>
    obtain ⟨bs, c₁, hfirst, hadvance, htree⟩ := hw c hc
    obtain ⟨cs, c₂, hrest, hadvance', htrees⟩ := ih c₁ (hadvance.nextId hc)
    rw [hadvance.length] at htree htrees
    refine ⟨bs ++ cs, c₂, ?_, hadvance.trans hadvance', .cons htree htrees⟩
    rw [sequence, hfirst]
    change (sequence ws c₁ >>= fun b => _) = _
    rw [hrest]
    rfl

/-- **A fixed part that is read back makes a construct that is read back.** -/
theorem Mirrors.complete {g : Grammar} {w : PartWriter} {l : Layout} {v : Value}
    (h : Mirrors g w (l.read g) (BindsTo v)) : Writes g (complete w) l v := by
  intro c hc
  obtain ⟨part, ts, hpart, hadvance, hwaiting, hfixed⟩ := h c hc
  obtain ⟨below, c', hbelow, hadvance', htrees⟩ :=
    sequence_treesAt hwaiting part.cursor (hadvance.nextId hc)
  have hall := hadvance.trans hadvance'
  rw [hadvance.length] at htrees
  refine ⟨part.bytes ++ below, c', ?_, hall, ?_⟩
  · unfold Ndr.complete
    rw [hpart]
    change (sequence part.waiting part.cursor >>= fun b => _) = _
    rw [hbelow]
    rfl
  · rw [hall.length]
    exact hfixed.treeAt htrees

end RemoteCall.Ndr
