import RemoteCall.Proofs.Ndr.Pieces

/-! Every spelling of a value that fits is read as this value, whatever stands in the gaps and
whichever ids there are. With this the bytes that a construct is read from are known in full
(`readConstruct_ok_iff_spans`). -/

namespace RemoteCall.Ndr

/-! ## Reads that accept every spelling -/

/-- Every spelling of the construct is read as it. -/
def ReadBack (g : Grammar) (l : Layout) (v : Value) : Prop :=
  ∀ position bs, Spells position (l.whole g v) bs → TreeAt g l v position bs

/-- Every spelling of `head` is read, and announces targets, of which every spelling is read back.
Together they spell `tail`. -/
def Accepts {α : Type} (g : Grammar) (r : Read α) (head tail : List Piece)
    (Q : (Nat → Value) → α → Prop) : Prop :=
  ∃ ts : List (Layout × Value), (ts.flatMap fun t => t.1.whole g t.2) = tail ∧
    (∀ t ∈ ts, ReadBack g t.1 t.2) ∧
    ∀ position bs, Spells position head bs → Restores r position bs ts Q

section Accepts

variable {α β γ : Type} {g : Grammar} {r : Read α} {a : α} {head head' tail tail' : List Piece}
  {P : (Nat → Value) → α → Prop} {Q : (Nat → Value) → β → Prop} {R : (Nat → Value) → γ → Prop}

/-- What has no pointers is read at once. -/
theorem accepts_of_gets (h : ∀ position bs, Spells position head bs → Gets r position bs a)
    (hp : ∀ σ, P σ a) : Accepts g r head [] P := by
  refine ⟨[], rfl, nofun, fun position bs hbs => ?_⟩
  have hread := (h position bs hbs).restores (f := pure) (restores_pure hp)
  rw [List.append_nil, bind_pure] at hread
  exact hread

/-- What has no pointers is read first, and what follows it is read next. -/
theorem Accepts.after {f : α → Read β}
    (h : ∀ position bs, Spells position head bs → Gets r position bs a)
    (hf : Accepts g (f a) head' tail Q) : Accepts g (r >>= f) (head ++ head') tail Q := by
  obtain ⟨ts, htail, hts, hread⟩ := hf
  refine ⟨ts, htail, hts, fun position bs hbs => ?_⟩
  obtain ⟨bs, cs, rfl, hbs, hcs⟩ := hbs.split
  exact (h position bs hbs).restores (hread _ cs hcs)

theorem Accepts.map {k : α → β} (h : Accepts g r head tail P) (hk : ∀ σ a, P σ a → Q σ (k a)) :
    Accepts g (do return k (← r)) head tail Q := by
  obtain ⟨ts, htail, hts, hread⟩ := h
  exact ⟨ts, htail, hts, fun position bs hbs => (hread position bs hbs).map hk⟩

theorem Accepts.append {r' : Read β} {k : α → β → γ} (h : Accepts g r head tail P)
    (h' : Accepts g r' head' tail' Q) (hk : ∀ σ a b, P σ a → Q σ b → R σ (k a b)) :
    Accepts g (do let a ← r; let b ← r'; return k a b) (head ++ head') (tail ++ tail') R := by
  obtain ⟨ts, rfl, hts, hread⟩ := h
  obtain ⟨us, rfl, hus, hread'⟩ := h'
  refine ⟨ts ++ us, List.flatMap_append, List.forall_mem_append.mpr ⟨hts, hus⟩,
    fun position bs hbs => ?_⟩
  obtain ⟨bs, cs, rfl, hbs, hcs⟩ := hbs.split
  exact (hread position bs hbs).append (hread' _ cs hcs) hk

theorem treesAt_of_spells {ts : List (Layout × Value)} (hts : ∀ t ∈ ts, ReadBack g t.1 t.2)
    {position : Nat} {bs : List UInt8}
    (h : Spells position (ts.flatMap fun t => t.1.whole g t.2) bs) : TreesAt g ts position bs := by
  induction ts generalizing position bs with
  | nil =>
    cases h
    exact .nil position
  | cons t ts ih =>
    obtain ⟨ht, hts⟩ := List.forall_mem_cons.mp hts
    rw [List.flatMap_cons] at h
    obtain ⟨bs, cs, rfl, hbs, hcs⟩ := h.split
    exact .cons (ht position bs hbs) (ih hts hcs)

/-- A fixed part that is accepted makes a construct that is read back. -/
theorem Accepts.readBack {l : Layout} {v : Value}
    (h : Accepts g (l.read g) (l.head v) (l.tail g v) (BindsTo v)) : ReadBack g l v := by
  obtain ⟨ts, htail, hts, hread⟩ := h
  intro position bs hbs
  obtain ⟨bs, cs, rfl, hbs, hcs⟩ := hbs.split
  rw [← htail] at hcs
  exact (hread position bs hbs).treeAt (treesAt_of_spells hts hcs)

end Accepts

/-! ## Single reads -/

/-- The bytes from a position on are a string of these units: whatever stands before the next multiple
of four, the greatest count, the offset and the actual count, and the units. -/
inductive IsString (position : Nat) (units : List UInt16) : List UInt8 → Prop
  | mk {gap : List UInt8} {max offset actual : UInt32} (hgap : gap.length = gapLength 4 position)
      (hcounts : offset.toNat + actual.toNat ≤ max.toNat) (hactual : actual.toNat = units.length) :
    IsString position units (gap ++ (dword max ++ (dword offset ++ (dword actual ++
      units.flatMap ByteOrder.little.word16))))

section Reads

variable {position : Nat} {bs : List UInt8} {t : Text}

/-- Content stands behind a gap. -/
theorem Spells.content {alignment : Nat} {cs : List UInt8}
    (h : Spells position [.content alignment cs] bs) :
    ∃ gap, gap.length = gapLength alignment position ∧ bs = gap ++ cs := by
  cases h with
  | cons hgap _ hadmits hrest =>
    cases hrest
    cases hadmits
    exact ⟨_, hgap, by rw [List.append_nil]⟩

theorem Spells.bare_content {cs : List UInt8} (h : Spells position [.content 1 cs] bs) : bs = cs := by
  obtain ⟨gap, hgap, rfl⟩ := h.content
  have hnone : gap = [] := by
    rw [← List.length_eq_zero_iff, hgap, gapLength, Nat.mod_one]
  rw [hnone, List.nil_append]

/-- A word is some number. -/
theorem Spells.word {p : Piece} (h : Spells position [p] bs) (halignment : p.alignment = 4)
    (hlength : p.roles.length = 4) :
    ∃ gap n, gap.length = gapLength 4 position ∧ p.Admits (dword n) ∧ bs = gap ++ dword n := by
  cases h with
  | @cons _ _ _ gap cs _ hgap hroles hadmits hrest =>
    cases hrest
    have hword : dword (ByteOrder.little.read32 cs) = cs :=
      ByteOrder.word32_read32 _ (hroles.trans hlength)
    refine ⟨gap, ByteOrder.little.read32 cs, by rw [hgap, halignment], ?_, ?_⟩
    · rw [hword]
      exact hadmits
    · rw [hword, List.append_nil]

theorem gets_u32_of_spells {n : UInt32} (h : Spells position [.content 4 (dword n)] bs) :
    Gets readU32 position bs n := by
  obtain ⟨gap, hgap, rfl⟩ := h.content
  exact gets_u32_behind hgap n

theorem IsString.gets (h : IsString position t.units bs) (ht : t.Storable) :
    Gets readText position bs t := by
  cases h with
  | @mk gap max offset actual hgap hcounts hactual =>
    obtain rfl : actual = countOf t.units.length := by
      rw [← hactual, countOf, UInt32.ofNat_toNat]
    rw [hactual] at hcounts
    have hread := gets_text_within ht hgap hcounts
    rwa [List.append_assoc] at hread

/-- The pieces of a string are its numbers and its units. -/
theorem isString_of_spells (ht : t.Storable) (h : Spells position t.pieces bs) :
    IsString position t.units bs := by
  cases h with
  | @cons _ _ _ gap cs rest hgap _ hadmits hrest =>
    obtain ⟨max, offset, hcounts, rfl⟩ := hadmits
    obtain ⟨count, units, rfl, hcount, hunits⟩ := hrest.uncons
    obtain ⟨gap', hgap', rfl⟩ := hcount.content
    have hnone : gap' = [] := by
      rw [← List.length_eq_zero_iff, hgap']
      exact Piece.gapLength_endFrom rfl (by simp [Piece.roles]) position
    have hactual : (countOf t.units.length).toNat = t.units.length := toNat_countOf ht.length
    rw [← hactual] at hcounts
    rw [hnone, hunits.bare_content, List.nil_append, List.append_assoc]
    exact .mk hgap hcounts hactual

/-- The limits can be any that the units are within. -/
theorem gets_text_of_spells (ht : t.Storable) (h : Spells position t.pieces bs) :
    Gets readText position bs t :=
  (isString_of_spells ht h).gets ht

theorem gets_level_of_spells {twice : Bool} {level : UInt32}
    (h : Spells position (levelPieces twice level) bs) :
    Gets (readLevel twice) position bs level := by
  cases twice with
  | false => exact gets_u32_of_spells h
  | true =>
    obtain ⟨bs, cs, rfl, hfirst, hlevel⟩ := h.uncons
    obtain ⟨gap, first, hgap, -, rfl⟩ := hfirst.word rfl rfl
    exact (gets_u32_behind hgap first).bind (gets_u32_of_spells hlevel)

end Reads

/-! ## Fixed parts -/

section Parts

variable {g : Grammar}

theorem accepts_u8 (n : UInt8) :
    Accepts g (Layout.u8.read g) (Layout.u8.head (.u8 n)) [] (BindsTo (.u8 n)) := by
  refine accepts_of_gets (a := Value.u8 n) (fun position bs h => ?_) fun _ => rfl
  rw [h.bare_content]
  exact (gets_u8 n position).map Value.u8

theorem accepts_u16 (n : UInt16) :
    Accepts g (Layout.u16.read g) (Layout.u16.head (.u16 n)) [] (BindsTo (.u16 n)) := by
  refine accepts_of_gets (a := Value.u16 n) (fun position bs h => ?_) fun _ => rfl
  obtain ⟨gap, hgap, rfl⟩ := h.content
  exact (gets_u16_behind hgap n).map Value.u16

theorem accepts_u32 (n : UInt32) :
    Accepts g (Layout.u32.read g) (Layout.u32.head (.u32 n)) [] (BindsTo (.u32 n)) :=
  accepts_of_gets (a := Value.u32 n) (fun _ _ h => (gets_u32_of_spells h).map Value.u32) fun _ => rfl

theorem accepts_text {t : Text} (ht : t.Storable) :
    Accepts g (Layout.text.read g) (Layout.text.head (.text t)) [] (BindsTo (.text t)) :=
  accepts_of_gets (a := Value.text t) (fun _ _ h => (gets_text_of_spells ht h).map Value.text)
    fun _ => rfl

theorem accepts_null (target : Layout) :
    Accepts g (readPointer target) [.content 4 (dword 0)] [] (BindsTo .null) :=
  accepts_of_gets (fun _ _ h => gets_null (gets_u32_of_spells h) target) fun _ => rfl

theorem accepts_pointer {target : Layout} {v : Value} (h : ReadBack g target v) :
    Accepts g (readPointer target) [.referent] (target.whole g v) (BindsTo (.pointer v)) := by
  refine ⟨[(target, v)], List.append_nil _, by simpa using h, fun position bs hbs => ?_⟩
  obtain ⟨gap, id, hgap, hid, rfl⟩ := hbs.word rfl rfl
  have hne : id ≠ 0 := by
    rintro rfl
    exact hid rfl
  exact restores_pointer hne target v hgap

theorem accepts_nil : Accepts g (pure [] : Read (List Value)) [] [] (AllBindTo []) := by
  refine accepts_of_gets (a := []) (fun position bs h => ?_) fun _ => rfl
  cases h
  exact gets_pure []

theorem accepts_items {item : Layout} {vs : List Value}
    (h : ∀ v ∈ vs, Accepts g (item.read g) (item.head v) (item.tail g v) (BindsTo v)) :
    Accepts g (readTimes (item.read g) vs.length) (vs.flatMap item.head)
      (Layout.tailAll g (List.replicate vs.length item) vs) (AllBindTo vs) := by
  induction vs with
  | nil => exact accepts_nil
  | cons v vs ih =>
    obtain ⟨hv, hvs⟩ := List.forall_mem_cons.mp h
    exact hv.append (ih hvs) fun _ _ _ hbind hbinds => congrArg₂ List.cons hbind hbinds

theorem accepts_array {item : Layout} {vs : List Value} (hlength : vs.length < 2 ^ 32)
    (h : ∀ v ∈ vs, Accepts g (item.read g) (item.head v) (item.tail g v) (BindsTo v)) :
    Accepts g ((Layout.array item).read g) ((Layout.array item).head (.array vs))
      ((Layout.array item).tail g (.array vs)) (BindsTo (.array vs)) := by
  change Accepts g _ ([.content 4 (dword (countOf vs.length))] ++ vs.flatMap item.head) _ _
  refine Accepts.after (fun _ _ hcount => gets_u32_of_spells hcount) ?_
  rw [toNat_countOf hlength]
  refine (accepts_items h).map fun σ vs' hbinds => ?_
  unfold BindsTo
  rw [Value.fill_array]
  exact congrArg Value.array hbinds

theorem accepts_choice {twice : Bool} {arms : List (UInt32 × Layout)} {level : UInt32} {arm : Value}
    {tail : List Piece}
    (h : Accepts g (readArm twice arms level) [armPiece twice arms level arm] tail
      (BindsTo (.choice twice level arm))) :
    Accepts g ((Layout.choice twice arms).read g)
      ((Layout.choice twice arms).head (.choice twice level arm)) tail
      (BindsTo (.choice twice level arm)) := by
  change Accepts g (readChoice twice arms) _ _ _
  rw [readChoice_eq]
  exact Accepts.after (fun _ _ hlevel => gets_level_of_spells hlevel) h

/-- A null pointer is fine whether the level is known or not. -/
theorem accepts_choiceNull (twice : Bool) (arms : List (UInt32 × Layout)) (level : UInt32) :
    Accepts g ((Layout.choice twice arms).read g)
      ((Layout.choice twice arms).head (.choice twice level .null))
      ((Layout.choice twice arms).tail g (.choice twice level .null))
      (BindsTo (.choice twice level .null)) := by
  refine accepts_choice ?_
  unfold readArm armPiece Layout.tail
  cases Layout.arm? arms level with
  | some target =>
    have hnull := (accepts_null (g := g) target).map (k := Value.choice twice level)
      (Q := BindsTo (.choice twice level .null)) fun _ _ hbind => congrArg (Value.choice _ _) hbind
    simpa [pointerPiece, Layout.tail] using hnull
  | none =>
    refine accepts_of_gets (a := Value.choice twice level .null) (fun position bs h => ?_)
      fun _ => rfl
    have hdrop : Gets (readU32 >>= dropArm twice level position) position bs
        (.choice twice level .null) := by
      cases twice with
      | true =>
        obtain ⟨gap, id, hgap, -, rfl⟩ := h.word rfl rfl
        exact gets_dropArm (gets_u32_behind hgap id) Bool.noConfusion level position
      | false => exact gets_dropArm (gets_u32_of_spells h) (fun _ => rfl) level position
    exact hdrop

theorem accepts_arm (twice : Bool) {arms : List (UInt32 × Layout)} {level : UInt32}
    {target : Layout} {v : Value} (harm : Layout.arm? arms level = some target)
    (h : ReadBack g target v) :
    Accepts g ((Layout.choice twice arms).read g)
      ((Layout.choice twice arms).head (.choice twice level (.pointer v)))
      ((Layout.choice twice arms).tail g (.choice twice level (.pointer v)))
      (BindsTo (.choice twice level (.pointer v))) := by
  refine accepts_choice ?_
  unfold readArm armPiece Layout.tail
  rw [harm]
  have hpointer := (accepts_pointer h).map (k := Value.choice twice level)
    (Q := BindsTo (.choice twice level (.pointer v))) fun _ _ hbind => congrArg (Value.choice _ _) hbind
  simpa [pointerPiece, Layout.tail, Layout.whole] using hpointer

end Parts

/-! ## All values -/

mutual

theorem Fits.accepts {g : Grammar} : ∀ {l : Layout} {v : Value}, Fits g l v →
    Accepts g (l.read g) (l.head v) (l.tail g v) (BindsTo v)
  | _, _, .u8 n => accepts_u8 n
  | _, _, .u16 n => accepts_u16 n
  | _, _, .u32 n => accepts_u32 n
  | _, _, .text h => accepts_text h
  | _, _, .array hlength h => accepts_array hlength fun v hv => (h v hv).accepts
  | _, _, .record h => h.accepts.map fun σ vs hbinds => by
    unfold BindsTo
    rw [Value.fill_record]
    exact congrArg Value.record hbinds
  | _, _, .null target => accepts_null target
  | _, _, .pointer h => accepts_pointer h.accepts.readBack
  | _, _, .linkNull name => accepts_null (g name)
  | _, _, .link h => accepts_pointer h.accepts.readBack
  | _, _, .choiceNull twice arms level => accepts_choiceNull twice arms level
  | _, _, .choice twice harm h => accepts_arm twice harm h.accepts.readBack

theorem FitsAll.accepts {g : Grammar} : ∀ {ls : List Layout} {vs : List Value}, FitsAll g ls vs →
    Accepts g (Layout.readAll g ls) (Layout.headAll ls vs) (Layout.tailAll g ls vs) (AllBindTo vs)
  | _, _, .nil => accepts_nil
  | _, _, .cons h hrest => Accepts.append h.accepts hrest.accepts fun _ _ _ hbind hbinds =>
    congrArg₂ List.cons hbind hbinds

end

/-- **What is read as a construct are the spellings of the values that fit.** -/
theorem readConstruct_ok_iff_spans {g : Grammar} {l : Layout} {v : Value} {d : Decoder} {p : Place} :
    (∃ d', readConstruct g l d = .ok v d' ∧ d'.place = p) ↔
      Fits g l v ∧ Spans (l.whole g v) d.place p := by
  constructor
  · rintro ⟨d', hread, rfl⟩
    exact ⟨fits_of_readConstruct hread, spans_of_readConstruct hread⟩
  · rintro ⟨hfits, bs, ⟨hrest, hposition⟩, hspells⟩
    obtain ⟨rest, position⟩ := p
    change d.rest = bs ++ rest at hrest
    change position = d.position + bs.length at hposition
    have htree := hfits.accepts.readBack d.position bs hspells (d.rest.length + 1) id rest
      (by rw [hrest]; exact Nat.lt_succ_self _)
    refine readConstruct_of_readTree ?_
    rw [Decoder.place, hposition]
    rw [← hrest] at htree
    exact htree

end RemoteCall.Ndr
