import RemoteCall.Text.Utf16

/-! Characters written as units are read back as they were, and units that can be read are written
back as they came. Units can be read just when all surrogates among them come in pairs. -/

namespace RemoteCall.Utf16

/-- A character is no surrogate. -/
theorem toNat_range (c : Char) : c.toNat < 0xD800 ∨ 0xDFFF < c.toNat ∧ c.toNat < 0x110000 := c.valid

theorem isHigh_iff (u : UInt16) : isHigh u = true ↔ 0xD800 ≤ u.toNat ∧ u.toNat < 0xDC00 := by
  simp only [isHigh, Bool.and_eq_true, decide_eq_true_eq, UInt16.le_iff_toNat_le,
    UInt16.lt_iff_toNat_lt]
  rfl

theorem isLow_iff (u : UInt16) : isLow u = true ↔ 0xDC00 ≤ u.toNat ∧ u.toNat < 0xE000 := by
  simp only [isLow, Bool.and_eq_true, decide_eq_true_eq, UInt16.le_iff_toNat_le,
    UInt16.lt_iff_toNat_lt]
  rfl

theorem toNat_unit {n : Nat} (h : n < 0x10000) : (UInt16.ofNat n).toNat = n :=
  UInt16.toNat_ofNat_of_lt' h

/-- A unit that is no surrogate is a character. -/
theorem decode_cons_unit {u : UInt16} (units : List UInt16) (hhigh : isHigh u = false)
    (hlow : isLow u = false) :
    decode (u :: units) = (decode units).map (Char.ofNat u.toNat :: ·) := by
  cases units with
  | nil =>
    change (if isHigh u || isLow u then none else some [Char.ofNat u.toNat]) = _
    rw [hhigh, hlow]
    rfl
  | cons v rest =>
    rw [decode, hhigh, hlow]
    rfl

theorem decode_cons_pair {u v : UInt16} (units : List UInt16) (hhigh : isHigh u = true)
    (hlow : isLow v = true) : decode (u :: v :: units) = (decode units).map (ofPair u v :: ·) := by
  rw [decode, hhigh, hlow]
  rfl

theorem decode_ofChar_append (c : Char) (units : List UInt16) :
    decode (ofChar c ++ units) = (decode units).map (c :: ·) := by
  have hrange := toNat_range c
  unfold ofChar
  split
  · next hsmall =>
    have hunit := toNat_unit hsmall
    have hhigh : isHigh (UInt16.ofNat c.toNat) = false := by
      rw [← Bool.not_eq_true, isHigh_iff, hunit]
      omega
    have hlow : isLow (UInt16.ofNat c.toNat) = false := by
      rw [← Bool.not_eq_true, isLow_iff, hunit]
      omega
    rw [List.singleton_append, decode_cons_unit units hhigh hlow, hunit, Char.ofNat_toNat]
  · next hlarge =>
    have hhighUnit := toNat_unit (n := 0xD800 + (c.toNat - 0x10000) / 0x400) (by omega)
    have hlowUnit := toNat_unit (n := 0xDC00 + (c.toNat - 0x10000) % 0x400) (by omega)
    have hpair : ofPair (UInt16.ofNat (0xD800 + (c.toNat - 0x10000) / 0x400))
        (UInt16.ofNat (0xDC00 + (c.toNat - 0x10000) % 0x400)) = c := by
      unfold ofPair
      rw [hhighUnit, hlowUnit]
      rw [show 0x10000 + 0x400 * (0xD800 + (c.toNat - 0x10000) / 0x400 - 0xD800)
        + (0xDC00 + (c.toNat - 0x10000) % 0x400 - 0xDC00) = c.toNat by omega, Char.ofNat_toNat]
    refine (decode_cons_pair units ?_ ?_).trans ?_
    · rw [isHigh_iff, hhighUnit]
      omega
    · rw [isLow_iff, hlowUnit]
      omega
    · rw [hpair]

/-- **What is written as UTF-16 is read back.** -/
theorem decode_encode (cs : List Char) : decode (encode cs) = some cs := by
  induction cs with
  | nil => rfl
  | cons c cs ih =>
    unfold encode at ih ⊢
    rw [List.flatMap_cons, decode_ofChar_append, ih, Option.map_some]

/-- Only the null character ends in a null unit. -/
theorem getLast?_ofChar_ne {c : Char} (h : c ≠ '\x00') : (ofChar c).getLast? ≠ some 0 := by
  have hrange := toNat_range c
  intro hlast
  unfold ofChar at hlast
  split at hlast
  · next hsmall =>
    have hzero : UInt16.ofNat c.toNat = 0 := Option.some.inj hlast
    have hnull := congrArg UInt16.toNat hzero
    rw [toNat_unit hsmall] at hnull
    exact h (Char.toNat_inj.mp hnull)
  · next hlarge =>
    have hzero : UInt16.ofNat (0xDC00 + (c.toNat - 0x10000) % 0x400) = 0 := Option.some.inj hlast
    have hlow := congrArg UInt16.toNat hzero
    rw [toNat_unit (by omega)] at hlow
    change 0xDC00 + (c.toNat - 0x10000) % 0x400 = 0 at hlow
    omega

theorem getLast?_encode_ne {cs : List Char} (h : cs.getLast? ≠ some '\x00') :
    (encode cs).getLast? ≠ some 0 := by
  cases hlast : cs.getLast? with
  | none =>
    rw [List.getLast?_eq_none_iff] at hlast
    rw [hlast]
    exact nofun
  | some c =>
    obtain ⟨init, rfl⟩ := List.getLast?_eq_some_iff.mp hlast
    have hc : c ≠ '\x00' := by
      rintro rfl
      exact h hlast
    have hunits := getLast?_ofChar_ne hc
    unfold encode
    rw [List.flatMap_append, List.flatMap_singleton, List.getLast?_append]
    cases hunit : (ofChar c).getLast? with
    | none =>
      rw [List.getLast?_eq_none_iff] at hunit
      unfold ofChar at hunit
      split at hunit <;> cases hunit
    | some u =>
      rw [hunit] at hunits
      exact hunits

/-! ## Units that can be read -/

theorem toNat_ofNat {n : Nat} (h : n.isValidChar) : (Char.ofNat n).toNat = n := by
  unfold Char.ofNat
  rw [dif_pos h]
  rfl

/-- A unit that is no surrogate is written as it was read. -/
theorem ofChar_ofNat {u : UInt16} (hhigh : isHigh u = false) (hlow : isLow u = false) :
    ofChar (Char.ofNat u.toNat) = [u] := by
  have hsize := u.toNat_lt
  rw [← Bool.not_eq_true, isHigh_iff] at hhigh
  rw [← Bool.not_eq_true, isLow_iff] at hlow
  have hvalid : u.toNat.isValidChar := by
    rcases Nat.lt_or_ge u.toNat 0xD800 with h | h
    · exact Or.inl h
    · exact Or.inr ⟨by omega, by omega⟩
  have hchar : (Char.ofNat u.toNat).toNat = u.toNat := toNat_ofNat hvalid
  unfold ofChar
  rw [hchar, if_pos hsize, UInt16.ofNat_toNat]

/-- So is a pair of surrogates. -/
theorem ofChar_ofPair {u v : UInt16} (hhigh : isHigh u = true) (hlow : isLow v = true) :
    ofChar (ofPair u v) = [u, v] := by
  rw [isHigh_iff] at hhigh
  rw [isLow_iff] at hlow
  have hvalid : (0x10000 + 0x400 * (u.toNat - 0xD800) + (v.toNat - 0xDC00)).isValidChar :=
    Or.inr ⟨by omega, by omega⟩
  have hchar : (ofPair u v).toNat = 0x10000 + 0x400 * (u.toNat - 0xD800) + (v.toNat - 0xDC00) :=
    toNat_ofNat hvalid
  unfold ofChar
  rw [hchar, if_neg (by omega)]
  have hu : 0xD800 + (0x10000 + 0x400 * (u.toNat - 0xD800) + (v.toNat - 0xDC00) - 0x10000) / 0x400
      = u.toNat := by omega
  have hv : 0xDC00 + (0x10000 + 0x400 * (u.toNat - 0xD800) + (v.toNat - 0xDC00) - 0x10000) % 0x400
      = v.toNat := by omega
  simp only [hu, hv, UInt16.ofNat_toNat]

/-- **What can be read as UTF-16 is written as it was read.** -/
theorem encode_decode {units : List UInt16} {cs : List Char} (h : decode units = some cs) :
    encode cs = units := by
  fun_induction decode units generalizing cs with
  | case1 =>
    cases h
    rfl
  | case2 u hsurrogate => cases h
  | case3 u hsurrogate =>
    cases h
    simp only [Bool.not_eq_true, Bool.or_eq_false_iff] at hsurrogate
    exact (List.append_nil _).trans (ofChar_ofNat hsurrogate.1 hsurrogate.2)
  | case4 u v rest hhigh hlow ih =>
    obtain ⟨ds, hds, rfl⟩ := Option.map_eq_some_iff.mp h
    change ofChar (ofPair u v) ++ encode ds = _
    rw [ofChar_ofPair hhigh hlow, ih hds]
    rfl
  | case5 u v rest hhigh hlow => cases h
  | case6 u v rest hhigh hlow => cases h
  | case7 u v rest hhigh hlow ih =>
    obtain ⟨ds, hds, rfl⟩ := Option.map_eq_some_iff.mp h
    change ofChar (Char.ofNat u.toNat) ++ encode ds = _
    rw [ofChar_ofNat (by simpa using hhigh) (by simpa using hlow), ih hds]
    rfl

/-! ## Surrogates in pairs -/

/-- Every surrogate is paired: a low one stands right behind a high one, and a high one right before
a low one. -/
structure Paired (units : List UInt16) : Prop where
  high : ∀ i u, units[i]? = some u → isHigh u = true →
    ∃ v, units[i + 1]? = some v ∧ isLow v = true
  low : ∀ i v, units[i]? = some v → isLow v = true →
    ∃ j u, i = j + 1 ∧ units[j]? = some u ∧ isHigh u = true

section Paired

variable {u v : UInt16} {units : List UInt16}

theorem isLow_eq_false_of_isHigh (h : isHigh u = true) : isLow u = false := by
  rw [isHigh_iff] at h
  rw [← Bool.not_eq_true, isLow_iff]
  omega

theorem isHigh_eq_false_of_isLow (h : isLow u = true) : isHigh u = false := by
  rw [isLow_iff] at h
  rw [← Bool.not_eq_true, isHigh_iff]
  omega

/-- Nothing stands before the first unit. -/
theorem Paired.isLow_head (h : Paired (u :: units)) : isLow u = false := by
  rw [← Bool.not_eq_true]
  intro hlow
  obtain ⟨j, w, hj, -⟩ := h.low 0 u rfl hlow
  cases hj

theorem Paired.exists_low (h : Paired (u :: units)) (hhigh : isHigh u = true) :
    ∃ v rest, units = v :: rest ∧ isLow v = true := by
  obtain ⟨v, hv, hlow⟩ := h.high 0 u rfl hhigh
  cases units with
  | nil => cases hv
  | cons w rest =>
    obtain rfl : w = v := Option.some.inj hv
    exact ⟨w, rest, rfl, hlow⟩

theorem paired_nil : Paired [] := ⟨nofun, nofun⟩

theorem Paired.of_cons (h : Paired (u :: units)) (hhigh : isHigh u = false) : Paired units where
  high i w hw hh := h.high (i + 1) w hw hh
  low i w hw hl := by
    obtain ⟨j, x, hj, hx, hhigh'⟩ := h.low (i + 1) w hw hl
    obtain rfl : i = j := Nat.succ.inj hj
    cases i with
    | zero =>
      cases hx
      rw [hhigh] at hhigh'
      cases hhigh'
    | succ i => exact ⟨i, x, rfl, hx, hhigh'⟩

theorem Paired.cons (h : Paired units) (hhigh : isHigh u = false) (hlow : isLow u = false) :
    Paired (u :: units) where
  high i w hw hh := by
    cases i with
    | zero =>
      cases hw
      rw [hhigh] at hh
      cases hh
    | succ i => exact h.high i w hw hh
  low i w hw hl := by
    cases i with
    | zero =>
      cases hw
      rw [hlow] at hl
      cases hl
    | succ i =>
      obtain ⟨j, x, rfl, hx, hx'⟩ := h.low i w hw hl
      exact ⟨j + 1, x, rfl, hx, hx'⟩

theorem Paired.of_pair (h : Paired (u :: v :: units)) (hlow : isLow v = true) : Paired units where
  high i w hw hh := h.high (i + 2) w hw hh
  low i w hw hl := by
    obtain ⟨j, x, hj, hx, hhigh⟩ := h.low (i + 2) w hw hl
    obtain rfl : i + 1 = j := Nat.succ.inj hj
    cases i with
    | zero =>
      cases hx
      rw [isHigh_eq_false_of_isLow hlow] at hhigh
      cases hhigh
    | succ i => exact ⟨i, x, rfl, hx, hhigh⟩

theorem Paired.pair (h : Paired units) (hhigh : isHigh u = true) (hlow : isLow v = true) :
    Paired (u :: v :: units) where
  high i w hw hh := by
    match i with
    | 0 => exact ⟨v, rfl, hlow⟩
    | 1 =>
      cases hw
      rw [isHigh_eq_false_of_isLow hlow] at hh
      cases hh
    | i + 2 => exact h.high i w hw hh
  low i w hw hl := by
    match i with
    | 0 =>
      cases hw
      rw [isLow_eq_false_of_isHigh hhigh] at hl
      cases hl
    | 1 => exact ⟨0, u, rfl, rfl, hhigh⟩
    | i + 2 =>
      obtain ⟨j, x, rfl, hx, hx'⟩ := h.low i w hw hl
      exact ⟨j + 2, x, rfl, hx, hx'⟩

/-- **Units can be read if and only if every surrogate is paired.** -/
theorem isSome_decode_iff (units : List UInt16) : (decode units).isSome = true ↔ Paired units := by
  fun_induction decode units with
  | case1 => exact iff_of_true rfl paired_nil
  | case2 u hsurrogate =>
    refine iff_of_false nofun fun h => ?_
    rw [h.isLow_head, Bool.or_false] at hsurrogate
    obtain ⟨v, rest, hrest, -⟩ := h.exists_low hsurrogate
    cases hrest
  | case3 u hsurrogate =>
    simp only [Bool.not_eq_true, Bool.or_eq_false_iff] at hsurrogate
    exact iff_of_true rfl (paired_nil.cons hsurrogate.1 hsurrogate.2)
  | case4 u v rest hhigh hlow ih =>
    rw [Option.isSome_map, ih]
    exact ⟨fun h => h.pair hhigh hlow, fun h => h.of_pair hlow⟩
  | case5 u v rest hhigh hlow =>
    refine iff_of_false nofun fun h => hlow ?_
    obtain ⟨w, rest', hrest, hw⟩ := h.exists_low hhigh
    cases hrest
    exact hw
  | case6 u v rest hhigh hlow =>
    refine iff_of_false nofun fun h => ?_
    rw [h.isLow_head] at hlow
    cases hlow
  | case7 u v rest hhigh hlow ih =>
    rw [Bool.not_eq_true] at hhigh hlow
    rw [Option.isSome_map, ih]
    exact ⟨fun h => h.cons hhigh hlow, fun h => h.of_cons hhigh⟩

end Paired

end RemoteCall.Utf16
