import RemoteCall.Proofs.Ndr.Decoded
import RemoteCall.Proofs.Ndr.Spelling

/-! The pieces of a construct, told by its layout and its value. Whatever bytes a construct is read
from, they are a spelling of its pieces (`spans_of_readConstruct`). -/

namespace RemoteCall.Ndr

/-! ## Pieces of values -/

def Text.pieces (t : Text) : List Piece :=
  [.limits t.units.length, .content 4 (dword (countOf t.units.length)),
    .content 1 (t.units.flatMap ByteOrder.little.word16)]

/-- A null pointer is told by its id. -/
def pointerPiece : Value → Piece
  | .null => .content 4 (dword 0)
  | _ => .referent

/-- The first one of two levels is not read. -/
def levelPieces (twice : Bool) (level : UInt32) : List Piece :=
  (if twice then [.firstLevel] else []) ++ [.content 4 (dword level)]

/-- The pointer of a level that is not known is not read if the level is written twice. -/
def armPiece (twice : Bool) (arms : List (UInt32 × Layout)) (level : UInt32) (arm : Value) : Piece :=
  if twice && (Layout.arm? arms level).isNone then .unknownArm else pointerPiece arm

namespace Layout

mutual

/-- The fixed part of a value. -/
def head : Layout → Value → List Piece
  | .u8, .u8 n => [.content 1 [n]]
  | .u16, .u16 n => [.content 2 (ByteOrder.little.word16 n)]
  | .u32, .u32 n => [.content 4 (dword n)]
  | .text, .text t => t.pieces
  | .array item, .array vs => .content 4 (dword (countOf vs.length)) :: vs.flatMap item.head
  | .record members, .record vs => headAll members vs
  | .pointer _, v => [pointerPiece v]
  | .link _, v => [pointerPiece v]
  | .choice twice arms, .choice _ level arm =>
    levelPieces twice level ++ [armPiece twice arms level arm]
  | _, _ => []

def headAll : List Layout → List Value → List Piece
  | l :: ls, v :: vs => l.head v ++ headAll ls vs
  | _, _ => []

end

mutual

/-- What the pointers of the fixed part refer to, each with all that belongs to it. -/
def tail (g : Grammar) : Layout → Value → List Piece
  | .array item, .array vs => tailAll g (List.replicate vs.length item) vs
  | .record members, .record vs => tailAll g members vs
  | .pointer target, .pointer v => target.head v ++ tail g target v
  | .link name, .pointer v => (g name).head v ++ tail g (g name) v
  | .choice _ arms, .choice _ level arm =>
    match arm? arms level with
    | some target => tail g (.pointer target) arm
    | none => []
  | _, _ => []

def tailAll (g : Grammar) : List Layout → List Value → List Piece
  | l :: ls, v :: vs => tail g l v ++ tailAll g ls vs
  | _, _ => []

end

/-- A construct: its fixed part, and then what its pointers refer to. -/
def whole (g : Grammar) (l : Layout) (v : Value) : List Piece := l.head v ++ l.tail g v

end Layout

/-! ## Reads that take a spelling -/

section Spelt

variable {σ : Type} [Placed σ] {α β γ : Type}

/-- From one place to another, over a spelling of the pieces. -/
def Spans (ps : List Piece) (s t : σ) : Prop :=
  ∃ bs, Takes bs (place s) (place t) ∧ Spells (place s).position ps bs

theorem Spans.refl (s : σ) : Spans [] s s := ⟨[], .nil _, .nil _⟩

theorem Spans.trans {ps qs : List Piece} {s t u : σ} (h : Spans ps s t) (h' : Spans qs t u) :
    Spans (ps ++ qs) s u := by
  obtain ⟨bs, hst, hspells⟩ := h
  obtain ⟨cs, htu, hspells'⟩ := h'
  rw [hst.position] at hspells'
  exact ⟨bs ++ cs, hst.append htu, hspells.append hspells'⟩

/-- What the read gives and the pieces that it takes are as `P` says. -/
def Spelt (P : α → List Piece → Prop) (r : EStateM Error σ α) : Prop :=
  ∀ s a t, r s = .ok a t → ∃ ps, P a ps ∧ Spans ps s t

variable {P : α → List Piece → Prop} {Q : β → List Piece → Prop} {r : EStateM Error σ α}
  {f : α → EStateM Error σ β}

theorem Spelt.pure {a : α} (h : P a []) : Spelt P (pure a : EStateM Error σ α) := by
  rintro s _ _ ⟨⟩
  exact ⟨[], h, .refl s⟩

theorem Spelt.bind (hr : Spelt P r) (hf : ∀ a ps, P a ps → Spelt (fun b qs => Q b (ps ++ qs)) (f a)) :
    Spelt Q (r >>= f) := by
  intro s b u h
  obtain ⟨a, t, ha, hb⟩ := exists_of_bind_eq_ok h
  obtain ⟨ps, hp, hst⟩ := hr s a t ha
  obtain ⟨qs, hq, htu⟩ := hf a ps hp t b u hb
  exact ⟨ps ++ qs, hq, hst.trans htu⟩

theorem Spelt.map {k : α → β} (hr : Spelt P r) (hk : ∀ a ps, P a ps → Q (k a) ps) :
    Spelt Q (do return k (← r)) :=
  hr.bind fun a ps hp => .pure (by rw [List.append_nil]; exact hk a ps hp)

end Spelt

/-! ## Single reads -/

section Reads

variable {α : Type} {P : α → List Piece → Prop}

theorem spelt_fail (offset : Nat) (defect : DataDefect) : Spelt P (fail offset defect : Read α) := nofun

theorem spelt_takeBytes (n : Nat) (item : DataItem) :
    Spelt (fun bs ps => bs.length = n ∧ ps = [.content 1 bs]) (takeBytes n item) := by
  intro d bs d' h
  obtain ⟨hlength, hrest, hd⟩ := takeBytes_of_ok h
  have hgap : ([] : List UInt8).length = gapLength 1 d.position := by simp [gapLength, Nat.mod_one]
  have hroles : bs.length = (Piece.content 1 bs).roles.length := List.length_replicate.symm
  exact ⟨_, ⟨hlength, rfl⟩, bs, ⟨hrest, congrArg Decoder.position hd⟩,
    .singleton hgap hroles rfl⟩

theorem align_of_ok {alignment : Nat} {d d' : Decoder} {u : Unit} (h : align alignment d = .ok u d') :
    ∃ gap, gap.length = gapLength alignment d.position ∧ Takes gap d.place d'.place := by
  obtain ⟨gap, d₁, hgap, hd₁⟩ :=
    exists_of_bind_eq_ok (r := takeBytes (gapLength alignment d.position) .padding) h
  cases hd₁
  obtain ⟨hlength, hrest, hd⟩ := takeBytes_of_ok hgap
  exact ⟨gap, hlength, hrest, congrArg Decoder.position hd⟩

/-- A read that only looks at its position. -/
theorem Spelt.position {f : Nat → Read α} (hf : ∀ n, Spelt P (f n)) :
    Spelt P (do f (← get).position) :=
  fun d => hf d.position d

/-- The bytes of an aligned read stand for any piece that they can stand for. -/
theorem spelt_aligned {alignment n : Nat} {item : DataItem} {k : List UInt8 → α}
    (piece : α → Piece) (halignment : ∀ a, (piece a).alignment = alignment)
    (hpiece : ∀ bs, bs.length = n →
      bs.length = (piece (k bs)).roles.length ∧ (piece (k bs)).Admits bs) :
    Spelt (fun a ps => ps = [piece a]) (do align alignment; return k (← takeBytes n item)) := by
  intro d a d' h
  obtain ⟨_, d₁, halign, h⟩ := exists_of_bind_eq_ok h
  obtain ⟨bs, d₂, htake, h⟩ := exists_of_bind_eq_ok h
  cases h
  obtain ⟨gap, hgap, hskip⟩ := align_of_ok halign
  obtain ⟨hlength, hrest, hd⟩ := takeBytes_of_ok htake
  obtain ⟨hroles, hadmits⟩ := hpiece bs hlength
  have hposition : d'.position = d₁.position + bs.length := congrArg Decoder.position hd
  have hbs : Takes bs d₁.place d'.place := ⟨hrest, hposition⟩
  rw [← halignment (k bs)] at hgap
  exact ⟨_, rfl, gap ++ bs, hskip.append hbs, .singleton hgap hroles hadmits⟩

/-- A number can stand for the piece. -/
structure Piece.Holds (p : Piece) (n : UInt32) : Prop where
  alignment : p.alignment = 4
  length : p.roles.length = 4
  admits : p.Admits (dword n)

theorem Piece.holds_content (n : UInt32) : (Piece.content 4 (dword n)).Holds n := ⟨rfl, rfl, rfl⟩

theorem Piece.holds_firstLevel (n : UInt32) : Piece.firstLevel.Holds n := ⟨rfl, rfl, trivial⟩

theorem Piece.holds_unknownArm (n : UInt32) : Piece.unknownArm.Holds n := ⟨rfl, rfl, trivial⟩

theorem dword_ne_zero {n : UInt32} (h : n ≠ 0) : dword n ≠ dword 0 := by
  intro hzero
  have hread := congrArg ByteOrder.little.read32 hzero
  exact h (by simpa [dword] using hread)

theorem Piece.holds_referent {n : UInt32} (h : n ≠ 0) : Piece.referent.Holds n :=
  ⟨rfl, rfl, dword_ne_zero h⟩

theorem spelt_readU8 : Spelt (fun n ps => ps = [.content 1 [n]]) readU8 := by
  refine (spelt_takeBytes 1 .u8).map ?_
  rintro bs ps ⟨hlength, rfl⟩
  obtain ⟨b, rfl⟩ := List.length_eq_one_iff.mp hlength
  simp [ByteOrder.decode, ByteOrder.arrange, ofDigits]

theorem spelt_readU16 :
    Spelt (fun n ps => ps = [.content 2 (ByteOrder.little.word16 n)]) readU16 := by
  refine spelt_aligned (fun n => .content 2 (ByteOrder.little.word16 n)) (fun _ => rfl) ?_
  intro bs hlength
  simp [Piece.roles, Piece.Admits, hlength, ByteOrder.word16_read16]

/-- Which piece a number stands for may depend on the number. -/
theorem spelt_readU32 (piece : UInt32 → Piece) (h : ∀ n, (piece n).Holds n) :
    Spelt (fun n ps => ps = [piece n]) readU32 := by
  refine spelt_aligned piece (fun n => (h n).alignment) fun bs hlength => ?_
  have hword : dword (ByteOrder.little.read32 bs) = bs := ByteOrder.word32_read32 _ hlength
  obtain ⟨-, hroles, hadmits⟩ := h (ByteOrder.little.read32 bs)
  rw [hword] at hadmits
  exact ⟨hlength.trans hroles.symm, hadmits⟩

theorem flatMap_unitsOfBytes (n : Nat) {bs : List UInt8} (h : bs.length = 2 * n) :
    (unitsOfBytes bs).flatMap ByteOrder.little.word16 = bs := by
  induction n generalizing bs with
  | zero =>
    rw [List.length_eq_zero_iff.mp h]
    rfl
  | succ n ih =>
    match bs with
    | a :: b :: rest =>
      have hrest : (unitsOfBytes rest).flatMap ByteOrder.little.word16 = rest :=
        ih (by simp only [List.length_cons] at h; omega)
      have hunit : ByteOrder.little.word16 (ByteOrder.little.read16 [a, b]) = [a, b] :=
        ByteOrder.word16_read16 _ rfl
      simp [unitsOfBytes, hrest, hunit]

theorem spelt_readCharacters (start : Nat) (count : UInt32) :
    Spelt (fun t ps => t.units.length = count.toNat ∧
      ps = [.content 1 (t.units.flatMap ByteOrder.little.word16)]) (readCharacters start count) := by
  refine (spelt_takeBytes _ _).bind fun raw ps hraw => ?_
  obtain ⟨hlength, rfl⟩ := hraw
  cases ht : Text.ofUnits? (unitsOfBytes raw) with
  | none => exact spelt_fail _ _
  | some t =>
    refine .pure ?_
    rw [(Text.of_ofUnits? ht).1, flatMap_unitsOfBytes _ hlength]
    exact ⟨length_unitsOfBytes _ hlength, List.append_nil _⟩

/-- Nothing has to be skipped behind words. -/
theorem Piece.gapLength_endFrom {p : Piece} (halignment : p.alignment = 4)
    (hlength : p.roles.length % 4 = 0) (position : Nat) : gapLength 4 (p.endFrom position) = 0 := by
  unfold endFrom gapLength
  rw [halignment]
  omega

/-- Two numbers of which the text tells only that its units are within them. -/
theorem Spells.limits {position count : Nat} {max offset : UInt32} {ps : List Piece}
    {bs : List UInt8}
    (h : Spells position (.content 4 (dword max) :: .content 4 (dword offset) :: ps) bs)
    (hcounts : offset.toNat + count ≤ max.toNat) : Spells position (.limits count :: ps) bs := by
  cases h with
  | @cons _ _ _ gap bs rest hgap hlength hadmits hrest =>
    cases hrest with
    | @cons _ _ _ gap' bs' rest' hgap' hlength' hadmits' hrest' =>
      cases hadmits
      cases hadmits'
      have hend : (Piece.limits count).endFrom position =
          (Piece.content 4 (dword offset)).endFrom ((Piece.content 4 (dword max)).endFrom position) := by
        simp [Piece.endFrom, Piece.roles, Piece.alignment, gapLength, dword]
        omega
      -- One piece has one gap in front: there must be none between the two words.
      have hnext : gap' = [] := by
        rw [← List.length_eq_zero_iff, hgap']
        exact Piece.gapLength_endFrom rfl (by simp [Piece.roles, dword]) position
      rw [← hend] at hrest'
      rw [hnext, List.nil_append, ← List.append_assoc (dword max)]
      exact .cons hgap rfl ⟨max, offset, hcounts, rfl⟩ hrest'

theorem Spelt.mono {Q : α → List Piece → Prop} {r : Read α} (hr : Spelt P r)
    (h : ∀ a ps, P a ps → ∃ qs, Q a qs ∧ ∀ position bs, Spells position ps bs → Spells position qs bs) :
    Spelt Q r := by
  intro d a d' hread
  obtain ⟨ps, hp, bs, hbs, hspells⟩ := hr d a d' hread
  obtain ⟨qs, hq, hmono⟩ := h a ps hp
  exact ⟨qs, hq, bs, hbs, hmono _ _ hspells⟩

theorem spelt_readText : Spelt (fun t ps => ps = t.pieces) readText := by
  -- The two limits are words of their own until the count behind them is known.
  have hword : Spelt (fun n ps => ps = [.content 4 (dword n)]) readU32 :=
    spelt_readU32 _ Piece.holds_content
  have hread : Spelt (fun t ps => ∃ max offset : UInt32, offset.toNat + t.units.length ≤ max.toNat ∧
      ps = .content 4 (dword max) :: .content 4 (dword offset) :: t.pieces.tail) readText := by
    rw [readText_eq]
    refine Spelt.position fun start => hword.bind fun max ps hmax => hword.bind fun offset ps' hoffset =>
      hword.bind fun actual ps'' hactual => ?_
    subst hmax hoffset hactual
    dsimp only
    split
    · exact (spelt_fail (P := fun _ _ => False) _ _).bind fun _ _ h => h.elim
    · next hwithin =>
      rintro d t d' hchars
      obtain ⟨_, ⟨hcount, rfl⟩, hspans⟩ := spelt_readCharacters start actual d t d' hchars
      refine ⟨_, ⟨max, offset, by omega, ?_⟩, hspans⟩
      simp [Text.pieces, hcount, countOf]
  refine hread.mono ?_
  rintro t ps ⟨max, offset, hcounts, rfl⟩
  exact ⟨_, rfl, fun _ _ h => h.limits hcounts⟩

theorem spelt_readTimes {head : α → List Piece} {read : Read α}
    (h : Spelt (fun a ps => ps = head a) read) (n : Nat) :
    Spelt (fun as ps => as.length = n ∧ ps = as.flatMap head) (readTimes read n) := by
  induction n with
  | zero => exact .pure ⟨rfl, rfl⟩
  | succ n ih =>
    refine h.bind fun a ps hps => ih.map fun as qs has => ?_
    obtain ⟨hlength, rfl⟩ := has
    rw [hps]
    exact ⟨congrArg (· + 1) hlength, rfl⟩

end Reads

/-! ## Fixed parts -/

theorem spelt_readPointer (target : Layout) :
    Spelt (fun v ps => ps = [pointerPiece v]) (readPointer target) := by
  have hid : ∀ id : UInt32, (if id = 0 then .content 4 (dword 0) else Piece.referent).Holds id := by
    intro id
    by_cases h : id = 0
    · rw [if_pos h, h]
      exact Piece.holds_content 0
    · rw [if_neg h]
      exact Piece.holds_referent h
  rw [readPointer_eq]
  refine (spelt_readU32 _ hid).bind fun id ps hps => ?_
  subst hps
  by_cases h : id = 0
  · rw [h, announce_zero]
    exact .pure rfl
  · intro d v d' hv
    rw [announce_of_ne h] at hv
    cases hv
    rw [if_neg h]
    exact ⟨[], rfl, .refl d⟩

theorem spelt_readArray {head : Value → List Piece} {item : Read Value}
    (h : Spelt (fun v ps => ps = head v) item) :
    Spelt (fun v ps => ∃ vs, v = .array vs ∧
      ps = .content 4 (dword (countOf vs.length)) :: vs.flatMap head) (readArray item) := by
  refine (spelt_readU32 _ Piece.holds_content).bind fun count ps hps => ?_
  refine (spelt_readTimes h count.toNat).map fun vs qs hvs => ?_
  obtain ⟨hlength, rfl⟩ := hvs
  exact ⟨vs, rfl, by simp [hps, hlength, countOf]⟩

theorem spelt_readLevel (twice : Bool) :
    Spelt (fun level ps => ps = levelPieces twice level) (readLevel twice) := by
  have hlevel : Spelt (fun n ps => ps = [.content 4 (dword n)]) readU32 :=
    spelt_readU32 _ Piece.holds_content
  cases twice with
  | false => exact hlevel
  | true =>
    refine (spelt_readU32 (fun _ => .firstLevel) Piece.holds_firstLevel).bind fun _ ps hps => ?_
    subst hps
    intro d level d' h
    obtain ⟨_, rfl, hspans⟩ := hlevel d level d' h
    exact ⟨_, rfl, hspans⟩

theorem spelt_readArm (twice : Bool) (arms : List (UInt32 × Layout)) (level : UInt32) :
    Spelt (fun v ps => ∃ arm, v = .choice twice level arm ∧ ps = [armPiece twice arms level arm])
      (readArm twice arms level) := by
  unfold readArm armPiece
  cases Layout.arm? arms level with
  | some target =>
    refine (spelt_readPointer target).map fun v ps hps => ⟨v, rfl, ?_⟩
    simpa using hps
  | none =>
    refine Spelt.position (f := fun n => readU32 >>= dropArm twice level n) fun offset => ?_
    cases twice with
    | true =>
      refine (spelt_readU32 (fun _ => .unknownArm) Piece.holds_unknownArm).bind fun id ps hps => ?_
      subst hps
      exact .pure ⟨.null, rfl, rfl⟩
    | false =>
      refine (spelt_readU32 _ Piece.holds_content).bind fun id ps hps => ?_
      subst hps
      unfold dropArm
      by_cases hid : id = 0
      · rw [hid]
        exact .pure ⟨.null, rfl, rfl⟩
      · have hrefused : (!false && id != 0) = true := by simpa using hid
        rw [if_pos hrefused]
        exact (spelt_fail (P := fun _ _ => False) _ _).bind fun _ _ h => h.elim

namespace Layout

mutual

/-- Whatever a fixed part is read from spells it. -/
theorem spelt_read (g : Grammar) : ∀ l : Layout, Spelt (fun v ps => ps = l.head v) (l.read g)
  | .u8 => spelt_readU8.map fun _ _ h => h
  | .u16 => spelt_readU16.map fun _ _ h => h
  | .u32 => (spelt_readU32 _ Piece.holds_content).map fun _ _ h => h
  | .text => spelt_readText.map fun _ _ h => h
  | .array item => by
    intro d v d' h
    obtain ⟨_, ⟨vs, rfl, rfl⟩, hspans⟩ := spelt_readArray (spelt_read g item) d v d' h
    exact ⟨_, rfl, hspans⟩
  | .record members => (spelt_readAll g members).map fun _ _ h => h
  | .pointer target => spelt_readPointer target
  | .link name => spelt_readPointer (g name)
  | .choice twice arms => by
    have hchoice : Spelt (fun v ps => ps = (Layout.choice twice arms).head v)
        (readLevel twice >>= readArm twice arms) := by
      refine (spelt_readLevel twice).bind fun level ps hps => ?_
      intro d v d' h
      obtain ⟨_, ⟨arm, rfl, rfl⟩, hspans⟩ := spelt_readArm twice arms level d v d' h
      exact ⟨_, by rw [hps]; rfl, hspans⟩
    rw [← readChoice_eq] at hchoice
    exact hchoice

theorem spelt_readAll (g : Grammar) :
    ∀ ls : List Layout, Spelt (fun vs ps => ps = headAll ls vs) (readAll g ls)
  | [] => .pure rfl
  | l :: ls => (spelt_read g l).bind fun v ps hv => (spelt_readAll g ls).map fun vs qs hvs => by
    rw [hv, hvs]
    rfl

end

end Layout

/-! ## Constructs -/

/-- What the slots from `slot` on hold, each with all that belongs to it. -/
def below (g : Grammar) (σ : Nat → Value) : (slot : Nat) → List Layout → List Piece
  | _, [] => []
  | slot, l :: ls => l.whole g (σ slot) ++ below g σ (slot + 1) ls

section Fill

variable {g : Grammar} {σ : Nat → Value}

theorem below_append (slot : Nat) (ls ms : List Layout) :
    below g σ slot (ls ++ ms) = below g σ slot ls ++ below g σ (slot + ls.length) ms := by
  induction ls generalizing slot with
  | nil => rfl
  | cons l ls ih =>
    simp only [List.cons_append, below, ih, List.append_assoc, List.length_cons]
    rw [show slot + (ls.length + 1) = slot + 1 + ls.length by omega]

theorem headAll_replicate {l : Layout} (vs : List Value) :
    Layout.headAll (List.replicate vs.length l) vs = vs.flatMap l.head := by
  induction vs with
  | nil => rfl
  | cons v vs ih => simp [List.replicate_succ, Layout.headAll, ih]

mutual

/-- A pointer has its id, whether it is bound or not. -/
theorem Open.head_fill : ∀ {l : Layout} {v : Value} {slot : Nat} {targets : List Layout},
    Open g l v slot targets → l.head (v.fill σ) = l.head v
  | _, _, _, _, .u8 _ _ | _, _, _, _, .u16 _ _ | _, _, _, _, .u32 _ _ | _, _, _, _, .text _ _ => rfl
  | _, _, _, _, @Open.array _ item vs _ _ h => by
    have hitems := h.head_fill
    have hfilled := headAll_replicate (l := item) (vs.map (Value.fill σ))
    rw [List.length_map, hitems, headAll_replicate] at hfilled
    rw [Value.fill_array]
    simp only [Layout.head, List.length_map, hfilled]
  | _, _, _, _, .record h => by
    rw [Value.fill_record]
    exact h.head_fill
  | _, _, _, _, .null _ _ | _, _, _, _, .deferred _ _ | _, _, _, _, .linkNull _ _
  | _, _, _, _, .linkDeferred _ _ | _, _, _, _, .choiceNull _ _ _ _ => rfl
  | _, _, _, _, .choiceDeferred _ _ _ => rfl

theorem OpenAll.head_fill : ∀ {ls : List Layout} {vs : List Value} {slot : Nat}
    {targets : List Layout}, OpenAll g ls vs slot targets →
    Layout.headAll ls (vs.map (Value.fill σ)) = Layout.headAll ls vs
  | _, _, _, _, .nil _ => rfl
  | _, _, _, _, .cons h hrest => congrArg₂ (· ++ ·) h.head_fill hrest.head_fill

end

mutual

theorem Open.tail_fill : ∀ {l : Layout} {v : Value} {slot : Nat} {targets : List Layout},
    Open g l v slot targets → l.tail g (v.fill σ) = below g σ slot targets
  | _, _, _, _, .u8 _ _ | _, _, _, _, .u16 _ _ | _, _, _, _, .u32 _ _ | _, _, _, _, .text _ _ => rfl
  | _, _, _, _, .array h => by
    rw [Value.fill_array]
    simp only [Layout.tail, List.length_map]
    exact h.tail_fill
  | _, _, _, _, .record h => by
    rw [Value.fill_record]
    simp only [Layout.tail]
    exact h.tail_fill
  | _, _, _, _, .null _ _ | _, _, _, _, .linkNull _ _ => rfl
  | _, _, _, _, .deferred _ _ | _, _, _, _, .linkDeferred _ _ => (List.append_nil _).symm
  | _, _, _, _, .choiceNull _ arms level _ => by
    change (match Layout.arm? arms level with
      | some target => Layout.tail g (.pointer target) .null
      | none => []) = []
    cases Layout.arm? arms level <;> rfl
  | _, _, _, _, @Open.choiceDeferred _ _ arms level slot target harm => by
    change (match Layout.arm? arms level with
      | some target => Layout.tail g (.pointer target) (.pointer (σ slot))
      | none => []) = _
    rw [harm]
    exact (List.append_nil _).symm

theorem OpenAll.tail_fill : ∀ {ls : List Layout} {vs : List Value} {slot : Nat}
    {targets : List Layout}, OpenAll g ls vs slot targets →
    Layout.tailAll g ls (vs.map (Value.fill σ)) = below g σ slot targets
  | _, _, _, _, .nil _ => rfl
  | _, _, _, _, .cons h hrest => by
    rw [below_append]
    exact congrArg₂ (· ++ ·) h.tail_fill hrest.tail_fill

end

end Fill

section Trees

variable {g : Grammar} {wrap : Error → Error} {l : Layout} {v : Value} {p p' : Place}

theorem Spans.length_le {ps : List Piece} (h : Spans ps p p') : p'.rest.length ≤ p.rest.length := by
  obtain ⟨bs, hbs, -⟩ := h
  exact hbs.length_le

/-- Targets in a row, each of them with no more bytes to come than the one before. -/
theorem spans_of_mapM {f : UInt32 × Layout → TreeRead Value} {σ : Nat → Value} {n : Nat}
    (h : ∀ t p v p', p.rest.length < n → f t p = .ok v p' → Spans (t.2.whole g v) p p')
    {ts : List (UInt32 × Layout)} {trees : List Value} {slot : Nat}
    (hn : 0 < ts.length → p.rest.length < n) (hts : ts.mapM f p = .ok trees p')
    (hσ : Assigns σ slot trees) : Spans (below g σ slot (ts.map (·.2))) p p' := by
  induction ts generalizing p trees slot with
  | nil =>
    cases hts
    exact .refl _
  | cons t ts ih =>
    have hp := hn (Nat.succ_pos _)
    rw [List.mapM_cons] at hts
    obtain ⟨v, p₁, hv, hts⟩ := exists_of_bind_eq_ok hts
    obtain ⟨vs, p₂, hvs, hts⟩ := exists_of_bind_eq_ok hts
    cases hts
    have hfirst := h t p v p₁ hp hv
    have hle := hfirst.length_le
    rw [List.map_cons, below, hσ.1]
    exact hfirst.trans (ih (fun _ => by omega) hvs hσ.2)

/-- Step and run in one, down to any depth that is enough. -/
theorem spans_of_readTree {depth : Nat} (hdepth : p.rest.length < depth)
    (h : readTree g depth wrap l p = .ok v p') : Spans (l.whole g v) p p' := by
  induction depth generalizing wrap l v p p' with
  | zero => omega
  | succ depth ih =>
    rw [readTree_succ] at h
    obtain ⟨⟨w, ts⟩, p₁, hfixed, h⟩ := exists_of_bind_eq_ok h
    obtain ⟨trees, p₂, htrees, h⟩ := exists_of_bind_eq_ok h
    cases h
    obtain ⟨hopen, -, hrest⟩ := open_of_readFixed hfixed
    obtain ⟨d, hread, -, rfl⟩ := exists_of_readFixed hfixed
    obtain ⟨_, rfl, hhead⟩ := l.spelt_read g _ _ _ hread
    -- Targets have ids in the fixed part, so there are fewer bytes for them than for it.
    have hdeep : 0 < ts.length → d.place.rest.length < depth := fun _ => by omega
    have htail := spans_of_mapM (fun _ _ _ _ hp hv => ih hp hv) hdeep htrees
      (assigns_branch 0 trees)
    have hwhole : l.whole g (w.fill (branch trees)) =
        l.head w ++ below g (branch trees) 0 (ts.map (·.2)) := by
      rw [Layout.whole, hopen.head_fill, hopen.tail_fill]
    rw [hwhole]
    exact Spans.trans (t := d.place) hhead htail

end Trees

/-- **Whatever a construct is read from spells its pieces.** -/
theorem spans_of_readConstruct {g : Grammar} {l : Layout} {v : Value} {d d' : Decoder}
    (h : readConstruct g l d = .ok v d') : Spans (l.whole g v) d d' :=
  spans_of_readTree (Nat.lt_succ_self _)
    ((readConstruct_ok_iff (Nat.lt_succ_self _)).mp ⟨d', h, rfl⟩)

end RemoteCall.Ndr
