import Mathlib.Algebra.Group.Nat.Defs
import RemoteCall.Ndr.Encoder
import RemoteCall.Proofs.Ndr.Fixed
import RemoteCall.Proofs.Utf16

/-! Numbers, runs of bytes and strings: what was put at a position is read there. Alignment counts
from the start of the stream, so both sides have to be at the same position. -/

namespace RemoteCall.Ndr

/-- The bytes at that position are all that a read takes, and it gives `a`. Nothing is announced. -/
def Gets {α : Type} (r : Read α) (position : Nat) (bs : List UInt8) (a : α) : Prop :=
  ∀ rest pending arena, r ⟨bs ++ rest, position, pending, arena⟩
    = .ok a ⟨rest, position + bs.length, pending, arena⟩

section Combinators

variable {α β : Type} {r : Read α} {f : α → Read β} {position : Nat} {bs cs : List UInt8} {a : α}
  {b : β}

theorem Gets.read {rest : List UInt8} {d : Decoder} (hr : Gets r position bs a)
    (hrest : d.rest = bs ++ rest) (hposition : d.position = position) :
    r d = .ok a { d with rest, position := position + bs.length } := by
  obtain ⟨_, _, pending, arena⟩ := d
  subst hrest hposition
  exact hr rest pending arena

theorem gets_pure (a : α) : Gets (pure a : Read α) position [] a := fun _ _ _ => rfl

theorem Gets.bind (hr : Gets r position bs a) (hf : Gets (f a) (position + bs.length) cs b) :
    Gets (r >>= f) position (bs ++ cs) b := by
  intro rest pending arena
  rw [Read.bind_eq, List.append_assoc, hr (cs ++ rest) pending arena]
  change f a _ = _
  rw [hf rest pending arena, List.length_append, Nat.add_assoc]

/-- What follows takes nothing more. -/
theorem Gets.bind_nil (hr : Gets r position bs a) (hf : Gets (f a) (position + bs.length) [] b) :
    Gets (r >>= f) position bs b := by
  have h := hr.bind hf
  rw [List.append_nil] at h
  exact h

theorem Gets.map (f : α → β) (hr : Gets r position bs a) :
    Gets (do return f (← r)) position bs (f a) :=
  hr.bind_nil (gets_pure (f a))

end Combinators

/-! ## Numbers -/

theorem gets_takeBytes {n : Nat} {bs : List UInt8} (h : bs.length = n) (item : DataItem)
    (position : Nat) : Gets (takeBytes n item) position bs bs := by
  intro rest pending arena
  unfold takeBytes
  simp only [splitExact?_append h, h]

/-- How far it is to the next multiple of the alignment. -/
def gapLength (alignment position : Nat) : Nat := (alignment - position % alignment) % alignment

/-- Padding up to the next multiple of the alignment. -/
def paddingBytes (alignment position : Nat) : List UInt8 :=
  List.replicate ((alignment - position % alignment) % alignment) 0

theorem length_paddingBytes (alignment position : Nat) :
    (paddingBytes alignment position).length = gapLength alignment position := List.length_replicate

theorem length_paddingBytes_four (position : Nat) :
    (position + (paddingBytes 4 position).length) % 4 = 0 := by
  unfold paddingBytes
  rw [List.length_replicate]
  omega

theorem paddingBytes_of_aligned {position : Nat} (h : position % 4 = 0) :
    paddingBytes 4 position = [] := by
  unfold paddingBytes
  rw [h]
  rfl

/-- Whatever stands in a gap, it is skipped. -/
theorem gets_align {alignment position : Nat} {gap : List UInt8}
    (h : gap.length = gapLength alignment position) : Gets (align alignment) position gap () := by
  have hskip : Gets (do let _ ← takeBytes (gapLength alignment position) .padding) position gap () :=
    (gets_takeBytes h .padding position).map fun _ => ()
  exact hskip

/-- A read of aligned bytes. -/
theorem Gets.aligned {α β : Type} {r : Read α} {gap bs : List UInt8} {a : α} (f : α → β)
    {alignment position : Nat} (h : gap.length = gapLength alignment position)
    (hr : Gets r (position + gap.length) bs a) :
    Gets (do align alignment; return f (← r)) position (gap ++ bs) (f a) :=
  (gets_align h).bind (hr.map f)

theorem gets_u8 (n : UInt8) (position : Nat) : Gets readU8 position [n] n := by
  have hlength : [n].length = 1 := rfl
  have h := (gets_takeBytes hlength .u8 position).map
    fun bs => UInt8.ofNat (ByteOrder.little.decode bs)
  have hn : UInt8.ofNat (ByteOrder.little.decode [n]) = n := by
    simp only [ByteOrder.decode, ByteOrder.arrange, ofDigits, Nat.mul_zero, Nat.add_zero,
      UInt8.ofNat_toNat]
  rw [hn] at h
  exact h

theorem gets_u16_behind {position : Nat} {gap : List UInt8} (h : gap.length = gapLength 2 position)
    (n : UInt16) : Gets readU16 position (gap ++ ByteOrder.little.word16 n) n := by
  have hread := Gets.aligned ByteOrder.little.read16 h
    (gets_takeBytes (ByteOrder.length_word16 .little n) .u16 _)
  rw [ByteOrder.read16_word16] at hread
  exact hread

theorem gets_u16 (n : UInt16) (position : Nat) :
    Gets readU16 position (paddingBytes 2 position ++ ByteOrder.little.word16 n) n :=
  gets_u16_behind (length_paddingBytes 2 position) n

theorem gets_u32_behind {position : Nat} {gap : List UInt8} (h : gap.length = gapLength 4 position)
    (n : UInt32) : Gets readU32 position (gap ++ dword n) n := by
  have hread := Gets.aligned ByteOrder.little.read32 h
    (gets_takeBytes (ByteOrder.length_word32 .little n) .u32 _)
  rw [ByteOrder.read32_word32] at hread
  exact hread

theorem gets_u32 (n : UInt32) (position : Nat) :
    Gets readU32 position (paddingBytes 4 position ++ dword n) n :=
  gets_u32_behind (length_paddingBytes 4 position) n

theorem gets_u64 (n : UInt64) (position : Nat) :
    Gets readU64 position (paddingBytes 4 position ++ ByteOrder.little.word64 n) n := by
  have h := Gets.aligned ByteOrder.little.read64 (length_paddingBytes 4 position)
    (gets_takeBytes (ByteOrder.length_word64 .little n) .u64 _)
  rw [ByteOrder.read64_word64] at h
  exact h

/-- A number where nothing has to be skipped. -/
theorem gets_u32_of_aligned {position : Nat} (h : position % 4 = 0) (n : UInt32) :
    Gets readU32 position (dword n) n := by
  have hread := gets_u32 n position
  rw [paddingBytes_of_aligned h] at hread
  exact hread

/-- A pointer that is null. -/
theorem gets_null {position : Nat} {bs : List UInt8} (h : Gets readU32 position bs 0)
    (target : Layout) : Gets (readPointer target) position bs .null := by
  rw [readPointer_eq]
  refine h.bind_nil ?_
  rw [announce_zero]
  exact gets_pure Value.null

/-! ## Strings -/

/-- A string that can be told from all others on the wire: its length can be written, and if it is
counted it does not end in a null. -/
structure Text.Storable (t : Text) : Prop where
  length : t.units.length < 2 ^ 32
  counted : t.terminated = false → t.value.toList.getLast? ≠ some '\x00'

theorem unitsOfBytes_flatMap (units : List UInt16) :
    unitsOfBytes (units.flatMap ByteOrder.little.word16) = units := by
  induction units with
  | nil => rfl
  | cons u units ih =>
    have hword := ByteOrder.read16_word16 .little u
    have hpair : ∃ a b, ByteOrder.little.word16 u = [a, b] := ⟨_, _, rfl⟩
    obtain ⟨a, b, hab⟩ := hpair
    rw [hab] at hword
    rw [List.flatMap_cons, hab, List.cons_append, List.cons_append, List.nil_append, unitsOfBytes,
      hword, ih]

theorem length_flatMap_word16 (units : List UInt16) :
    (units.flatMap ByteOrder.little.word16).length = 2 * units.length := by
  induction units with
  | nil => rfl
  | cons u units ih =>
    rw [List.flatMap_cons, List.length_append, ih, ByteOrder.length_word16, List.length_cons]
    omega

/-- The units of a string give it back, with its terminator told from its text. -/
theorem Text.ofUnits?_units {t : Text} (h : t.Storable) : Text.ofUnits? t.units = some t := by
  obtain ⟨value, terminated⟩ := t
  cases terminated with
  | true =>
    unfold ofUnits? units
    simp only [if_true, List.getLast?_concat, List.dropLast_concat, beq_self_eq_true,
      Utf16.decode_encode, Option.map_some, String.ofList_toList]
  | false =>
    have hlast : ((Utf16.encode value.toList).getLast? == some 0) = false :=
      beq_eq_false_iff_ne.mpr (Utf16.getLast?_encode_ne (h.counted rfl))
    unfold ofUnits? units
    simp only [Bool.false_eq_true, if_false, List.append_nil, hlast, Utf16.decode_encode,
      Option.map_some, String.ofList_toList]

theorem toNat_countOf {n : Nat} (h : n < 2 ^ 32) : (countOf n).toNat = n :=
  UInt32.toNat_ofNat_of_lt' h

theorem gets_characters {t : Text} (h : t.Storable) (start position : Nat) :
    Gets (readCharacters start (countOf t.units.length)) position
      (t.units.flatMap ByteOrder.little.word16) t := by
  have hlength : (t.units.flatMap ByteOrder.little.word16).length
      = 2 * (countOf t.units.length).toNat := by
    rw [toNat_countOf h.length, length_flatMap_word16]
  refine (gets_takeBytes hlength .characters position).bind_nil ?_
  rw [unitsOfBytes_flatMap, Text.ofUnits?_units h]
  exact gets_pure t

/-- The greatest count and the offset do not matter to the text. -/
theorem gets_text_within {t : Text} (h : t.Storable) {position : Nat} {gap : List UInt8}
    {max offset : UInt32} (hgap : gap.length = gapLength 4 position)
    (hcounts : offset.toNat + t.units.length ≤ max.toNat) :
    Gets readText position (gap ++ dword max ++ (dword offset ++
      (dword (countOf t.units.length) ++ t.units.flatMap ByteOrder.little.word16))) t := by
  have hdword : ∀ n : UInt32, (dword n).length = 4 := ByteOrder.length_word32 .little
  have haligned : (position + gap.length) % 4 = 0 := by
    rw [hgap, gapLength]
    omega
  have hread : Gets (readTextFrom position) position (gap ++ dword max ++ (dword offset ++
      (dword (countOf t.units.length) ++ t.units.flatMap ByteOrder.little.word16))) t := by
    refine (gets_u32_behind hgap max).bind (Gets.bind (gets_u32_of_aligned ?_ offset)
      (Gets.bind (gets_u32_of_aligned ?_ (countOf t.units.length)) ?_))
    · rw [List.length_append, hdword]
      omega
    · rw [List.length_append, hdword, hdword]
      omega
    · have hwithin : ¬offset.toNat + (countOf t.units.length).toNat > max.toNat := by
        rw [toNat_countOf h.length]
        omega
      simp only [if_neg hwithin]
      exact gets_characters h position _
  exact hread

theorem gets_text {t : Text} (h : t.Storable) (position : Nat) :
    Gets readText position (paddingBytes 4 position ++ t.bytes) t := by
  have hcounts : (0 : UInt32).toNat + t.units.length ≤ (countOf t.units.length).toNat := by
    simp [toNat_countOf h.length]
  have hread := gets_text_within h (length_paddingBytes 4 position) hcounts
  unfold Text.bytes
  simp only [List.append_assoc] at hread ⊢
  exact hread

end RemoteCall.Ndr
