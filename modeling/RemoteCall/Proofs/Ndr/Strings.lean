import RemoteCall.Proofs.Ndr.Readable
import RemoteCall.Proofs.Ndr.Rereading

/-! Strings on the wire. A string is read exactly where its three numbers and its units stand, if
the numbers leave room for the units and every surrogate among them is paired; and every text comes
back from where it was written (`readText_accepts`). -/

namespace RemoteCall.Ndr

/-! ## Strings in bytes -/

/-- The units without the null at their end, if there is one. -/
def dropNull (units : List UInt16) : List UInt16 :=
  if units.getLast? = some 0 then units.dropLast else units

section Strings

variable {position : Nat} {units : List UInt16} {t : Text} {bs : List UInt8}

theorem IsString.length_lt (h : IsString position units bs) : units.length < 2 ^ 32 := by
  cases h with
  | mk hgap hcounts hactual =>
    rw [← hactual]
    exact UInt32.toNat_lt _

/-- A text is told by its units if it is terminated just when they end in a null. -/
theorem Text.storable_iff (hlength : t.units.length < 2 ^ 32) :
    t.Storable ↔ (t.terminated = true ↔ t.units.getLast? = some 0) := by
  obtain ⟨value, terminated⟩ := t
  cases terminated with
  | true =>
    refine iff_of_true ⟨hlength, fun h => absurd h.symm Bool.false_ne_true⟩ ?_
    simp [units]
  | false =>
    have hunits : units ⟨value, false⟩ = Utf16.encode value.toList := List.append_nil _
    rw [hunits]
    constructor
    · intro h
      exact iff_of_false Bool.false_ne_true (Utf16.getLast?_encode_ne (h.counted rfl))
    · intro h
      refine ⟨hlength, fun _ hnull => Bool.false_ne_true (h.mpr ?_)⟩
      obtain ⟨init, hinit⟩ := List.getLast?_eq_some_iff.mp hnull
      rw [hinit, Utf16.encode, List.flatMap_append]
      exact List.getLast?_concat

/-- Units are those of some text if and only if they can be read but for the null at their end. -/
theorem Text.exists_units_iff (hlength : units.length < 2 ^ 32) :
    (∃ t : Text, t.Storable ∧ t.units = units) ↔ Utf16.Paired (dropNull units) := by
  have hparse : (Text.ofUnits? units).isSome = (Utf16.decode (dropNull units)).isSome := by
    unfold ofUnits? dropNull
    rw [Option.isSome_map]
    by_cases hlast : units.getLast? = some 0 <;> simp [hlast]
  rw [← Utf16.isSome_decode_iff, ← hparse, Option.isSome_iff_exists]
  constructor
  · rintro ⟨t, ht, rfl⟩
    exact ⟨t, ofUnits?_units ht⟩
  · rintro ⟨t, ht⟩
    obtain ⟨rfl, hcounted⟩ := of_ofUnits? ht
    exact ⟨t, ⟨hlength, hcounted⟩, rfl⟩

/-! ## Reading -/

theorem readText_eq_ok_iff {d d' : Decoder} : readText d = .ok t d' ↔
    t.Storable ∧ ∃ bs, IsString d.position t.units bs ∧ d.rest = bs ++ d'.rest ∧
      d' = { d with rest := d'.rest, position := d.position + bs.length } := by
  constructor
  · intro h
    have ht : t.Storable := (gives_readText.ok d t d' h).2
    obtain ⟨_, rfl, bs, htakes, hspells⟩ := spelt_readText d t d' h
    have hbs : IsString d.position t.units bs := isString_of_spells ht hspells
    have hread := (hbs.gets ht).read htakes.rest rfl
    exact ⟨ht, bs, hbs, htakes.rest, (EStateM.Result.ok.inj (h.symm.trans hread)).2⟩
  · rintro ⟨ht, bs, hbs, hrest, hd'⟩
    rw [hd']
    exact (hbs.gets ht).read hrest rfl

/-! ## Writing -/

/-- Wherever the first text is written, its units stand there, and the second text is read there. -/
def Text.ComesBackAs (t t' : Text) : Prop :=
  ∀ c : Cursor, ∃ out c', (Value.text t).fixed c = .ok ⟨out, [], c'⟩ ∧
    IsString c.length t.units out ∧
    ∀ (d : Decoder) (more : List UInt8), d.position = c.length → d.rest = out ++ more →
      readText d = .ok t' { d with rest := more, position := d.position + out.length }

theorem Text.comesBackAs_asRead (hlength : t.units.length < 2 ^ 32) : t.ComesBackAs t.asRead := by
  intro c
  obtain ⟨c', hput, -⟩ := put_advances 4 t.bytes c
  have hcount : (countOf t.units.length).toNat = t.units.length := toNat_countOf hlength
  have hout : IsString c.length t.units (paddingBytes 4 c.length ++ t.bytes) := by
    unfold Text.bytes
    rw [List.append_assoc, List.append_assoc]
    exact .mk (length_paddingBytes 4 c.length) (Nat.le_of_eq (Nat.zero_add _)) hcount
  refine ⟨_, c', hput, hout, fun d more hposition hrest => ?_⟩
  rw [← units_asRead] at hout
  rw [hposition]
  exact (hout.gets (storable_asRead hlength)).read hrest hposition

theorem Text.asRead_of_storable (h : t.Storable) : t.asRead = t := by
  unfold asRead
  exact if_neg fun ⟨hcounted, hlast⟩ => h.counted hcounted hlast

theorem Text.asRead_counted_push (s : String) :
    (Text.counted (s.push '\x00')).asRead = Text.ofString s := by
  unfold asRead
  rw [if_pos ⟨rfl, by simp [counted]⟩]
  simp [counted, ofString]

end Strings

/-- **Strings are read exactly where they stand.** Whatever was read before, a string is read just
when from the next multiple of four on there are its three numbers, with the offset and the actual
count within the greatest one, and as many units, with every surrogate paired but for a null at the
end. It is the text of these units, terminated if they end in a null; it ends right behind them, and
it is written with the same units. Every text that the counts can count comes back from its
terminated form, and from its counted form unless it ends in a null, which is then its
terminator. -/
theorem readText_accepts (d : Decoder) :
    (∀ t d', readText d = .ok t d' ↔ (t.terminated = true ↔ t.units.getLast? = some 0) ∧
      ∃ bs, IsString d.position t.units bs ∧ d.rest = bs ++ d'.rest ∧
        d' = { d with rest := d'.rest, position := d.position + bs.length }) ∧
    ((∃ t d', readText d = .ok t d') ↔ ∃ units bs rest, IsString d.position units bs ∧
      d.rest = bs ++ rest ∧ Utf16.Paired (dropNull units)) ∧
    (∀ t d', readText d = .ok t d' → t.ComesBackAs t) ∧
    (∀ s, (Text.ofString s).units.length < 2 ^ 32 →
      (Text.ofString s).ComesBackAs (.ofString s)) ∧
    (∀ s, (Text.counted s).units.length < 2 ^ 32 → s.toList.getLast? ≠ some '\x00' →
      (Text.counted s).ComesBackAs (.counted s)) ∧
    ∀ s, (Text.counted (s.push '\x00')).units.length < 2 ^ 32 →
      (Text.counted (s.push '\x00')).ComesBackAs (.ofString s) := by
  refine ⟨fun t d' => ?reads, ?succeeds, fun t d' h => ?rewritten, fun s hlength => ?terminated,
    fun s hlength hlast => ?counted, fun s hlength => ?nullAtEnd⟩
  case reads =>
    rw [readText_eq_ok_iff]
    constructor
    · rintro ⟨ht, bs, hbs, htaken⟩
      exact ⟨(Text.storable_iff ht.length).mp ht, bs, hbs, htaken⟩
    · rintro ⟨hnull, bs, hbs, htaken⟩
      exact ⟨(Text.storable_iff hbs.length_lt).mpr hnull, bs, hbs, htaken⟩
  case succeeds =>
    constructor
    · rintro ⟨t, d', h⟩
      obtain ⟨ht, bs, hbs, hrest, -⟩ := readText_eq_ok_iff.mp h
      exact ⟨t.units, bs, d'.rest, hbs, hrest, (Text.exists_units_iff ht.length).mp ⟨t, ht, rfl⟩⟩
    · rintro ⟨units, bs, rest, hbs, hrest, hpaired⟩
      obtain ⟨t, ht, rfl⟩ := (Text.exists_units_iff hbs.length_lt).mpr hpaired
      exact ⟨t, _, (hbs.gets ht).read hrest rfl⟩
  case rewritten =>
    obtain ⟨ht, -⟩ := readText_eq_ok_iff.mp h
    have hback := Text.comesBackAs_asRead ht.length
    rwa [Text.asRead_of_storable ht] at hback
  case terminated => exact Text.comesBackAs_asRead hlength
  case counted =>
    have hback := Text.comesBackAs_asRead hlength
    rwa [Text.asRead_of_storable ⟨hlength, fun _ => hlast⟩] at hback
  case nullAtEnd =>
    have hback := Text.comesBackAs_asRead hlength
    rwa [Text.asRead_counted_push] at hback

/-- A terminated text of three units behind a gap, with an offset, and one more byte. -/
def sampleString : Decoder :=
  ⟨[7, 7] ++ (dword 6 ++ (dword 1 ++ (dword 4 ++ [97, 0, 0x3D, 0xD8, 0, 0xDE, 0, 0]))) ++ [9],
    2, [], [⟨5, none⟩]⟩

theorem readText_accepts_sampleString :
    readText sampleString = .ok (.ofString "a😀") ⟨[9], 24, [], [⟨5, none⟩]⟩ ∧
    (Text.ofString "a😀").ComesBackAs (.ofString "a😀") ∧
    (Text.counted "\x00😀").ComesBackAs (.counted "\x00😀") ∧
    (Text.counted ("a".push '\x00')).ComesBackAs (.ofString "a") := by
  obtain ⟨hreads, -, hrewritten, -, hcounted, hnull⟩ := readText_accepts sampleString
  have hread : readText sampleString = .ok (.ofString "a😀") ⟨[9], 24, [], [⟨5, none⟩]⟩ :=
    (hreads _ _).mpr ⟨by decide, _,
      @IsString.mk 2 _ [7, 7] 6 1 4 (by decide) (by decide) (by decide), rfl, rfl⟩
  exact ⟨hread, hrewritten _ _ hread, hcounted _ (by decide) (by decide), hnull _ (by decide)⟩

end RemoteCall.Ndr
