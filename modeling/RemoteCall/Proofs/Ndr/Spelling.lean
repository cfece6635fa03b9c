import RemoteCall.Proofs.Ndr.Plain

/-! Many strings of bytes spell one row of pieces: what stands in the gaps between them is free, and
so is a part of some pieces. Two spellings of the same pieces are equally long and have the same
content at the same places (`Spells.agree`). Whatever else is changed gives one more spelling, as
long as no id becomes null (`Spells.revise`). -/

namespace RemoteCall.Ndr

/-! ## Roles -/

/-- What a byte is there for. -/
inductive Role
  /-- Up to the next multiple of an alignment. -/
  | padding
  /-- It is told by the value. -/
  | content
  /-- The byte with that number in the id of a pointer that is not null. -/
  | referent (byte : Nat)
  /-- In the greatest count or the offset of a string. -/
  | limits
  /-- In the first of two levels. -/
  | firstLevel
  /-- In the id of the pointer of a level that is not known. -/
  | unknownArm
  deriving DecidableEq

/-- Whether a reader looks at the byte, other than to tell a null id. -/
def Role.Matters : Role → Prop
  | content | limits => True
  | padding | referent _ | firstLevel | unknownArm => False

instance : DecidablePred Role.Matters
  | .content | .limits => .isTrue trivial
  | .padding | .referent _ | .firstLevel | .unknownArm => .isFalse id

/-- The second string has the bytes of the first one wherever they are to be kept. -/
def Agree (keep : Role → Prop) (rs : List Role) (bs cs : List UInt8) : Prop :=
  ∀ (i : Nat) (r : Role), rs[i]? = some r → keep r → cs[i]? = bs[i]?

/-- No id is null. -/
def NonNull (rs : List Role) (bs : List UInt8) : Prop :=
  ∀ i : Nat, rs[i]? = some (.referent 0) → (bs.drop i).take 4 ≠ dword 0

section Roles

variable {keep : Role → Prop} {rs ss : List Role} {bs bs' cs cs' : List UInt8}

theorem agree_iff :
    Agree keep rs bs cs ↔ ∀ i, (h : i < rs.length) → keep rs[i] → cs[i]? = bs[i]? := by
  constructor
  · intro h i hi hkeep
    exact h i rs[i] (List.getElem?_eq_getElem hi) hkeep
  · intro h i r hr hkeep
    obtain ⟨hi, rfl⟩ := List.getElem?_eq_some_iff.mp hr
    exact h i hi hkeep

instance [DecidablePred keep] : Decidable (Agree keep rs bs cs) := decidable_of_iff' _ agree_iff

theorem nonNull_iff :
    NonNull rs bs ↔ ∀ i, (h : i < rs.length) → rs[i] = .referent 0 →
      (bs.drop i).take 4 ≠ dword 0 := by
  constructor
  · intro h i hi hid
    exact h i (List.getElem?_eq_some_iff.mpr ⟨hi, hid⟩)
  · intro h i hi
    obtain ⟨hlt, hid⟩ := List.getElem?_eq_some_iff.mp hi
    exact h i hlt hid

instance : Decidable (NonNull rs bs) := decidable_of_iff' _ nonNull_iff

theorem Agree.refl : Agree keep rs bs bs := fun _ _ _ _ => rfl

theorem Agree.of_not_keep (h : ∀ r ∈ rs, ¬keep r) : Agree keep rs bs cs :=
  fun _ r hr hkeep => absurd hkeep (h r (List.mem_of_getElem? hr))

theorem Agree.eq (h : Agree keep rs bs cs) (hbs : bs.length = rs.length)
    (hcs : cs.length = rs.length) (hall : ∀ r ∈ rs, keep r) : cs = bs := by
  apply List.ext_getElem?
  intro i
  by_cases hi : i < rs.length
  · exact h i rs[i] (List.getElem?_eq_getElem hi) (hall _ (List.getElem_mem hi))
  · rw [List.getElem?_eq_none (by omega), List.getElem?_eq_none (by omega)]

theorem agree_append (hbs : bs.length = rs.length) (hcs : cs.length = rs.length) :
    Agree keep (rs ++ ss) (bs ++ bs') (cs ++ cs') ↔ Agree keep rs bs cs ∧ Agree keep ss bs' cs' := by
  constructor
  · intro h
    refine ⟨fun i r hr hkeep => ?_, fun i r hr hkeep => ?_⟩
    · have hi : i < rs.length := (List.getElem?_eq_some_iff.mp hr).1
      have hboth := h i r (by rw [List.getElem?_append_left hi, hr]) hkeep
      rwa [List.getElem?_append_left (hcs ▸ hi), List.getElem?_append_left (hbs ▸ hi)] at hboth
    · have hshift : (rs ++ ss)[rs.length + i]? = some r := by
        rw [List.getElem?_append_right (Nat.le_add_right ..), Nat.add_sub_cancel_left, hr]
      have hboth := h _ r hshift hkeep
      rw [List.getElem?_append_right (by omega), List.getElem?_append_right (by omega)] at hboth
      simpa [hbs, hcs] using hboth
  · rintro ⟨hleft, hright⟩ i r hr hkeep
    by_cases hi : i < rs.length
    · rw [List.getElem?_append_left hi] at hr
      rw [List.getElem?_append_left (hcs ▸ hi), List.getElem?_append_left (hbs ▸ hi)]
      exact hleft i r hr hkeep
    · rw [List.getElem?_append_right (by omega)] at hr
      rw [List.getElem?_append_right (by omega), List.getElem?_append_right (by omega), hbs, hcs]
      exact hright _ r hr hkeep

theorem NonNull.right (h : NonNull (rs ++ ss) (bs ++ bs')) (hbs : bs.length = rs.length) :
    NonNull ss bs' := by
  intro i hi
  have hshift : (rs ++ ss)[rs.length + i]? = some (.referent 0) := by
    rw [List.getElem?_append_right (Nat.le_add_right ..), Nat.add_sub_cancel_left, hi]
  have hid := h _ hshift
  rwa [← hbs, List.drop_length_add_append] at hid

end Roles

/-! ## Pieces -/

/-- What stands in a row in the bytes of a construct. -/
inductive Piece
  | content (alignment : Nat) (bs : List UInt8)
  | referent
  /-- The greatest count and the offset of a string of that many units. -/
  | limits (count : Nat)
  | firstLevel
  | unknownArm

namespace Piece

def alignment : Piece → Nat
  | content alignment _ => alignment
  | _ => 4

/-- What each byte of it is there for. -/
def roles : Piece → List Role
  | content _ bs => List.replicate bs.length .content
  | referent => (List.range 4).map .referent
  | limits _ => List.replicate 8 .limits
  | firstLevel => List.replicate 4 .firstLevel
  | unknownArm => List.replicate 4 .unknownArm

/-- Bytes that can stand for it, if they are that many. -/
def Admits (bs : List UInt8) : Piece → Prop
  | content _ cs => bs = cs
  | referent => bs ≠ dword 0
  | limits count => ∃ max offset, offset.toNat + count ≤ max.toNat ∧ bs = dword max ++ dword offset
  | firstLevel | unknownArm => True

variable {p : Piece} {bs cs : List UInt8}

theorem Admits.agree (hbs : p.Admits bs) (hcs : p.Admits cs) :
    Agree (· = .content) p.roles bs cs := by
  cases p with
  | content alignment ds =>
    cases hbs
    cases hcs
    exact .refl
  | referent | limits count | firstLevel | unknownArm => exact .of_not_keep (by simp [roles])

theorem Admits.revise (h : p.Admits bs) (hbs : bs.length = p.roles.length)
    (hcs : cs.length = p.roles.length) (hagree : Agree Role.Matters p.roles bs cs)
    (hid : p = referent → cs ≠ dword 0) : p.Admits cs := by
  cases p with
  | content alignment ds =>
    have hsame : cs = bs := hagree.eq hbs hcs (by simp [roles, Role.Matters])
    exact hsame ▸ h
  | limits count =>
    have hsame : cs = bs := hagree.eq hbs hcs (by simp [roles, Role.Matters])
    exact hsame ▸ h
  | referent => exact hid rfl
  | firstLevel | unknownArm => trivial

end Piece

/-- Where a piece ends that comes next from a position on. -/
def Piece.endFrom (position : Nat) (p : Piece) : Nat :=
  position + gapLength p.alignment position + p.roles.length

/-- What each byte of a row of pieces is there for, from a position on. -/
def roles (position : Nat) : List Piece → List Role
  | [] => []
  | p :: ps => List.replicate (gapLength p.alignment position) .padding ++
      (p.roles ++ roles (p.endFrom position) ps)

/-- The bytes from a position on stand for the pieces, with a gap in front of each of them. -/
inductive Spells : (position : Nat) → List Piece → List UInt8 → Prop
  | nil (position : Nat) : Spells position [] []
  | cons {position : Nat} {p : Piece} {ps : List Piece} {gap bs rest : List UInt8}
      (hgap : gap.length = gapLength p.alignment position) (hlength : bs.length = p.roles.length)
      (hadmits : p.Admits bs) (hrest : Spells (p.endFrom position) ps rest) :
      Spells position (p :: ps) (gap ++ (bs ++ rest))

section Spells

variable {position : Nat} {p : Piece} {ps qs : List Piece} {gap bs cs : List UInt8}

theorem Piece.endFrom_eq (hgap : gap.length = gapLength p.alignment position)
    (hlength : bs.length = p.roles.length) :
    p.endFrom position = position + gap.length + bs.length := by
  rw [endFrom, hgap, hlength]

theorem Spells.singleton (hgap : gap.length = gapLength p.alignment position)
    (hlength : bs.length = p.roles.length) (hadmits : p.Admits bs) :
    Spells position [p] (gap ++ bs) := by
  have h := Spells.cons hgap hlength hadmits (.nil _)
  rwa [List.append_nil] at h

theorem Spells.append (h : Spells position ps bs) (h' : Spells (position + bs.length) qs cs) :
    Spells position (ps ++ qs) (bs ++ cs) := by
  induction h with
  | nil position => exact h'
  | cons hgap hlength hadmits hrest ih =>
    rw [List.append_assoc, List.append_assoc]
    refine .cons hgap hlength hadmits (ih ?_)
    rw [Piece.endFrom_eq hgap hlength]
    simpa [Nat.add_assoc] using h'

theorem Spells.split (h : Spells position (ps ++ qs) bs) :
    ∃ bs' cs, bs = bs' ++ cs ∧ Spells position ps bs' ∧ Spells (position + bs'.length) qs cs := by
  induction ps generalizing position bs with
  | nil => exact ⟨[], bs, rfl, .nil position, h⟩
  | cons p ps ih =>
    cases h with
    | @cons _ _ _ gap bs rest hgap hlength hadmits hrest =>
      obtain ⟨bs', cs, rfl, hps, hqs⟩ := ih hrest
      refine ⟨gap ++ (bs ++ bs'), cs, by simp, .cons hgap hlength hadmits hps, ?_⟩
      rw [Piece.endFrom_eq hgap hlength] at hqs
      simpa [Nat.add_assoc] using hqs

theorem Spells.uncons (h : Spells position (p :: ps) bs) :
    ∃ bs' cs, bs = bs' ++ cs ∧ Spells position [p] bs' ∧ Spells (position + bs'.length) ps cs := by
  rw [← List.singleton_append] at h
  exact h.split

theorem Spells.length_eq (h : Spells position ps bs) : bs.length = (roles position ps).length := by
  induction h with
  | nil => rfl
  | cons hgap hlength _ _ ih => simp [roles, hgap, hlength, ih]

/-- **Two spellings of the same pieces have the same content at the same places.** -/
theorem Spells.agree (h : Spells position ps bs) (h' : Spells position ps cs) :
    Agree (· = .content) (roles position ps) bs cs := by
  induction h generalizing cs with
  | nil =>
    cases h'
    exact .refl
  | cons hgap hlength hadmits _ ih =>
    cases h' with
    | cons hgap' hlength' hadmits' hrest' =>
      refine (agree_append (by simp [hgap]) (by simp [hgap'])).mpr ⟨.of_not_keep (by simp), ?_⟩
      exact (agree_append hlength hlength').mpr ⟨hadmits.agree hadmits', ih hrest'⟩

theorem exists_append_of_length {a b : Nat} (h : cs.length = a + b) :
    ∃ xs ys, cs = xs ++ ys ∧ xs.length = a ∧ ys.length = b :=
  ⟨cs.take a, cs.drop a, (List.take_append_drop a cs).symm, by simp [h], by simp [h]⟩

/-- **Another string is one more spelling, if it agrees in all that matters and no id is null.** -/
theorem Spells.revise {more : List UInt8} (h : Spells position ps bs) (hcs : cs.length = bs.length)
    (hagree : Agree Role.Matters (roles position ps) bs cs)
    (hids : NonNull (roles position ps) (cs ++ more)) : Spells position ps cs := by
  induction h generalizing cs with
  | nil position =>
    rw [List.length_eq_zero_iff.mp hcs]
    exact .nil position
  | @cons position p ps gap bs rest hgap hlength hadmits hrest ih =>
    rw [List.length_append] at hcs
    obtain ⟨gap', cs, rfl, hgap', hcs⟩ := exists_append_of_length hcs
    rw [List.length_append] at hcs
    obtain ⟨cs, rest', rfl, hlength', hrest'⟩ := exists_append_of_length hcs
    rw [hgap] at hgap'
    rw [hlength] at hlength'
    obtain ⟨-, hagree⟩ := (agree_append (by simp [hgap]) (by simp [hgap'])).mp hagree
    obtain ⟨hpiece, hagree⟩ := (agree_append hlength hlength').mp hagree
    rw [List.append_assoc, List.append_assoc] at hids
    have hids := hids.right (by simp [hgap'])
    refine .cons hgap' hlength' (hadmits.revise hlength hlength' hpiece ?_)
      (ih hrest' hagree (hids.right hlength'))
    rintro rfl
    have hfour : cs.length = 4 := hlength'
    have hid := hids 0 rfl
    rwa [List.drop_zero, List.take_left' hfour] at hid

end Spells

end RemoteCall.Ndr
