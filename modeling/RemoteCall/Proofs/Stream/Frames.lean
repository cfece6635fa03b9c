import RemoteCall.Stream.Front

/-! The units of a byte stream, told from the headers in it and not from a buffer that gathers it.
Every stream has exactly one list of units (`exists_frames`, `Frames.unique`), and where the stream
is cut makes no difference to it (`Frames.append`, `Frames.split`). -/

namespace RemoteCall

/-! ## One unit -/

/-- One unit and nothing else: as many bytes as its header announces. -/
structure IsUnit (bytes : List UInt8) : Prop where
  header : Header.size ≤ bytes.length
  announced : Header.peekLength bytes = .ok bytes.length

/-- The start of a unit: not yet a header, or a header that announces more than is there. -/
inductive IsPartial (bytes : List UInt8) : Prop
  | header (h : bytes.length < Header.size)
  | body {n : Nat} (hpeek : Header.peekLength bytes = .ok n) (hsize : Header.size ≤ n)
      (hmore : bytes.length < n)

/-- A header that no unit has: its label cannot be read, or it announces less than a header. -/
inductive IsMalformed (bytes : List UInt8) : Error → Prop
  | label {e : Error} (hsize : Header.size ≤ bytes.length)
      (hpeek : Header.peekLength bytes = .error e) : IsMalformed bytes e
  | length {n : Nat} (hpeek : Header.peekLength bytes = .ok n) (hshort : n < Header.size) :
      IsMalformed bytes (.malformedPdu 8 (.fragmentBelowHeader n))

theorem isPartial_nil : IsPartial [] := .header (by decide)

/-- A header is peeked at without looking behind it. -/
theorem Header.peekLength_append {a : List UInt8} (h : size ≤ a.length) (b : List UInt8) :
    peekLength (a ++ b) = peekLength a := by
  have hsize : size = 16 := rfl
  have hget : ∀ i, i < size → (a ++ b).getD i 0 = a.getD i 0 := by
    intro i hi
    rw [List.getD_eq_getElem?_getD, List.getD_eq_getElem?_getD,
      List.getElem?_append_left (by omega)]
  have hrep : representationOf (a ++ b) = representationOf a := by
    simp only [representationOf, hget 4 (by decide), hget 5 (by decide), hget 6 (by decide),
      hget 7 (by decide)]
  have hannounced : ∀ o, announced o (a ++ b) = announced o a := by
    intro o
    have hdrop : (a ++ b).drop 8 = a.drop 8 ++ b := List.drop_append_of_le_length (by omega)
    have hword : 2 ≤ (a.drop 8).length := by
      rw [List.length_drop]
      omega
    rw [announced, announced, hdrop, List.take_append_of_le_length hword]
  have hlong : ¬ (a ++ b).length < size := by
    rw [List.length_append]
    omega
  simp only [peekLength, if_neg hlong, if_neg (Nat.not_lt.mpr h), hrep, hannounced]

theorem Header.size_le_of_peekLength {bytes : List UInt8} {n : Nat}
    (h : peekLength bytes = .ok n) : size ≤ bytes.length := by
  by_cases hshort : bytes.length < size
  · rw [peekLength, if_pos hshort] at h
    cases h
  · omega

/-- What cannot be read of a header is a malformed unit. -/
theorem Header.malformedPdu_of_peekLength {bytes : List UInt8} {e : Error}
    (h : peekLength bytes = .error e) : ∃ offset defect, e = .malformedPdu offset defect := by
  unfold peekLength at h
  split at h
  · cases h
    exact ⟨_, _, rfl⟩
  · cases hlabel : Label.ofRepresentation (representationOf bytes) with
    | ok label =>
      rw [hlabel] at h
      cases h
    | error e' =>
      rw [hlabel] at h
      cases h
      unfold Label.ofRepresentation at hlabel
      dsimp only at hlabel
      split at hlabel
      · cases hlabel
        exact ⟨_, _, rfl⟩
      · split at hlabel
        · cases hlabel
          exact ⟨_, _, rfl⟩
        · split at hlabel
          · cases hlabel
            exact ⟨_, _, rfl⟩
          · cases hlabel

theorem IsMalformed.malformedPdu {bytes : List UInt8} {e : Error} (h : IsMalformed bytes e) :
    ∃ offset defect, e = .malformedPdu offset defect := by
  cases h with
  | label _ hpeek => exact Header.malformedPdu_of_peekLength hpeek
  | length _ _ => exact ⟨_, _, rfl⟩

/-! ## The front of a buffer -/

/-- What is wrong with a buffer whose front is malformed. -/
def Front.error? : Front → Option Error
  | badLabel e => some e
  | tooShort n => some (tooShortError n)
  | incomplete | unit .. => none

theorem IsPartial.front {bytes : List UInt8} (h : IsPartial bytes) : front bytes = .incomplete := by
  unfold RemoteCall.front
  cases h with
  | header h => rw [if_pos h]
  | body hpeek hsize hmore =>
    have hsize' := Header.size_le_of_peekLength hpeek
    rw [if_neg (by omega), hpeek]
    dsimp only
    rw [if_neg (by omega), splitExact?_eq, if_neg (by omega)]

theorem IsMalformed.front {bytes : List UInt8} {e : Error} (h : IsMalformed bytes e) :
    (front bytes).error? = some e := by
  unfold RemoteCall.front
  cases h with
  | label hsize hpeek =>
    rw [if_neg (by omega), hpeek]
    rfl
  | length hpeek hshort =>
    have hsize := Header.size_le_of_peekLength hpeek
    rw [if_neg (by omega), hpeek]
    dsimp only
    rw [if_pos hshort]
    rfl

theorem IsUnit.front {u : List UInt8} (h : IsUnit u) (rest : List UInt8) :
    front (u ++ rest) = .unit u rest := by
  have hsize := h.header
  have hlong : ¬ (u ++ rest).length < Header.size := by
    rw [List.length_append]
    omega
  unfold RemoteCall.front
  rw [if_neg hlong, Header.peekLength_append hsize, h.announced]
  dsimp only
  rw [if_neg (by omega), splitExact?_append rfl]

/-- Any bytes start with a unit, are the start of one, or are malformed. -/
theorem isUnit_or_isPartial_or_isMalformed (bytes : List UInt8) :
    (∃ u rest, bytes = u ++ rest ∧ IsUnit u) ∨ IsPartial bytes ∨ ∃ e, IsMalformed bytes e := by
  by_cases hsize : bytes.length < Header.size
  · exact .inr (.inl (.header hsize))
  · cases hpeek : Header.peekLength bytes with
    | error e => exact .inr (.inr ⟨e, .label (by omega) hpeek⟩)
    | ok n =>
      by_cases hshort : n < Header.size
      · exact .inr (.inr ⟨_, .length hpeek hshort⟩)
      · by_cases hmore : bytes.length < n
        · exact .inr (.inl (.body hpeek (by omega) hmore))
        · have hlength : (bytes.take n).length = n := List.length_take_of_le (by omega)
          have hheader : Header.size ≤ (bytes.take n).length := by omega
          have happend := Header.peekLength_append hheader (bytes.drop n)
          rw [List.take_append_drop, hpeek] at happend
          have hcut := (List.take_append_drop n bytes).symm
          refine .inl ⟨bytes.take n, bytes.drop n, hcut, hheader, ?_⟩
          rw [← happend, hlength]

theorem front_eq_unit_iff {data u rest : List UInt8} :
    front data = .unit u rest ↔ data = u ++ rest ∧ IsUnit u := by
  constructor
  · intro hfront
    rcases isUnit_or_isPartial_or_isMalformed data with ⟨u', rest', rfl, hu⟩ | h | ⟨e, h⟩
    · rw [hu.front] at hfront
      cases hfront
      exact ⟨rfl, hu⟩
    · rw [h.front] at hfront
      cases hfront
    · have herror := h.front
      rw [hfront] at herror
      cases herror
  · rintro ⟨rfl, hu⟩
    exact hu.front rest

theorem front_error?_eq_some_iff {data : List UInt8} {e : Error} :
    (front data).error? = some e ↔ IsMalformed data e := by
  constructor
  · intro hfront
    rcases isUnit_or_isPartial_or_isMalformed data with ⟨u, rest, rfl, hu⟩ | h | ⟨e', h⟩
    · rw [hu.front] at hfront
      cases hfront
    · rw [h.front] at hfront
      cases hfront
    · rw [h.front] at hfront
      cases hfront
      exact h
  · exact IsMalformed.front

/-- More bytes do not mend a header. -/
theorem IsMalformed.append {a : List UInt8} {e : Error} (h : IsMalformed a e) (b : List UInt8) :
    IsMalformed (a ++ b) e := by
  cases h with
  | label hsize hpeek =>
    refine .label ?_ ?_
    · rw [List.length_append]
      omega
    · rw [Header.peekLength_append hsize, hpeek]
  | length hpeek hshort =>
    refine .length ?_ hshort
    rw [Header.peekLength_append (Header.size_le_of_peekLength hpeek), hpeek]

/-! ## All units -/

/-- The units of a stream in order, and what comes after them: the start of one more unit, which
may be nothing at all, or a header that is malformed. -/
inductive Frames : List UInt8 → List (List UInt8) → Except Error (List UInt8) → Prop
  | incomplete {tail : List UInt8} (h : IsPartial tail) : Frames tail [] (.ok tail)
  | malformed {rest : List UInt8} {e : Error} (h : IsMalformed rest e) : Frames rest [] (.error e)
  | unit {u data : List UInt8} {us : List (List UInt8)} {ending : Except Error (List UInt8)}
      (hu : IsUnit u) (h : Frames data us ending) : Frames (u ++ data) (u :: us) ending

theorem exists_frames (data : List UInt8) : ∃ us ending, Frames data us ending := by
  induction hn : data.length using Nat.strongRecOn generalizing data with
  | ind n ih =>
    rcases isUnit_or_isPartial_or_isMalformed data with ⟨u, rest, rfl, hu⟩ | h | ⟨e, h⟩
    · have hpos : 0 < u.length := Nat.lt_of_lt_of_le (by decide) hu.header
      have hlt : rest.length < n := by
        rw [List.length_append] at hn
        omega
      obtain ⟨us, ending, hrest⟩ := ih rest.length hlt rest rfl
      exact ⟨u :: us, ending, .unit hu hrest⟩
    · exact ⟨[], .ok data, .incomplete h⟩
    · exact ⟨[], .error e, .malformed h⟩

namespace Frames

variable {a b data tail : List UInt8} {us vs : List (List UInt8)}
  {ending ending' : Except Error (List UInt8)} {e : Error}

theorem isPartial (h : Frames data us (.ok tail)) : IsPartial tail := by
  generalize hending : Except.ok tail = ending at h
  induction h with
  | incomplete h =>
    cases hending
    exact h
  | malformed => cases hending
  | unit _ _ ih => exact ih hending

/-- What ends the units is a malformed unit, and no other error. -/
theorem malformedPdu (h : Frames data us (.error e)) :
    ∃ offset defect, e = .malformedPdu offset defect := by
  generalize hending : Except.error e = ending at h
  induction h with
  | incomplete => cases hending
  | malformed hmalformed =>
    cases hending
    exact hmalformed.malformedPdu
  | unit _ _ ih => exact ih hending

/-! What the front of a stream shows is the first unit, or there is none. -/

theorem of_front_unit {u rest : List UInt8} (h : Frames data us ending)
    (hfront : front data = .unit u rest) : ∃ vs, us = u :: vs ∧ Frames rest vs ending := by
  cases h with
  | incomplete hpartial =>
    rw [hpartial.front] at hfront
    cases hfront
  | malformed hmalformed =>
    have herror := hmalformed.front
    rw [hfront] at herror
    cases herror
  | unit hu hrest =>
    rw [hu.front] at hfront
    cases hfront
    exact ⟨_, rfl, hrest⟩

theorem of_front_incomplete (h : Frames data us ending) (hfront : front data = .incomplete) :
    us = [] ∧ ending = .ok data := by
  cases h with
  | incomplete => exact ⟨rfl, rfl⟩
  | malformed hmalformed =>
    have herror := hmalformed.front
    rw [hfront] at herror
    cases herror
  | unit hu =>
    rw [hu.front] at hfront
    cases hfront

theorem of_front_error (h : Frames data us ending) (hfront : (front data).error? = some e) :
    us = [] ∧ ending = .error e := by
  cases h with
  | incomplete hpartial =>
    rw [hpartial.front] at hfront
    cases hfront
  | malformed hmalformed =>
    rw [hmalformed.front, Option.some.injEq] at hfront
    exact ⟨rfl, congrArg Except.error hfront⟩
  | unit hu =>
    rw [hu.front] at hfront
    cases hfront

/-- A stream has no other units than these. -/
theorem unique (h : Frames data us ending) (h' : Frames data vs ending') :
    us = vs ∧ ending = ending' := by
  induction h generalizing vs with
  | incomplete hpartial =>
    obtain ⟨rfl, rfl⟩ := h'.of_front_incomplete hpartial.front
    exact ⟨rfl, rfl⟩
  | malformed hmalformed =>
    obtain ⟨rfl, rfl⟩ := h'.of_front_error hmalformed.front
    exact ⟨rfl, rfl⟩
  | unit hu _ ih =>
    obtain ⟨ws, rfl, hrest⟩ := h'.of_front_unit (hu.front _)
    obtain ⟨rfl, rfl⟩ := ih hrest
    exact ⟨rfl, rfl⟩

/-- Bytes that follow are framed together with the tail. -/
theorem append (h : Frames a us (.ok tail)) (h' : Frames (tail ++ b) vs ending) :
    Frames (a ++ b) (us ++ vs) ending := by
  generalize hending : Except.ok tail = ending' at h
  induction h with
  | incomplete =>
    cases hending
    exact h'
  | malformed => cases hending
  | unit hu _ ih =>
    rw [List.append_assoc]
    exact .unit hu (ih hending)

/-- Behind a malformed header nothing is framed any more. -/
theorem append_of_error (h : Frames a us (.error e)) (b : List UInt8) :
    Frames (a ++ b) us (.error e) := by
  generalize hending : Except.error e = ending at h
  induction h with
  | incomplete => cases hending
  | malformed h =>
    cases hending
    exact .malformed (h.append b)
  | unit hu _ ih =>
    rw [List.append_assoc]
    exact .unit hu (ih hending)

/-- Where a stream is cut makes no difference: the first part ends at the same malformed header, or
its tail is framed together with the second part. -/
theorem split (h : Frames (a ++ b) us ending) :
    (∃ e, ending = .error e ∧ Frames a us (.error e)) ∨
      ∃ tail vs ws, us = vs ++ ws ∧ Frames a vs (.ok tail) ∧ Frames (tail ++ b) ws ending := by
  obtain ⟨vs, ending', ha⟩ := exists_frames a
  cases ending' with
  | error e =>
    obtain ⟨rfl, rfl⟩ := h.unique (ha.append_of_error b)
    exact .inl ⟨e, rfl, ha⟩
  | ok tail =>
    obtain ⟨ws, ending', htail⟩ := exists_frames (tail ++ b)
    obtain ⟨rfl, rfl⟩ := h.unique (ha.append htail)
    exact .inr ⟨tail, vs, ws, rfl, ha, htail⟩

end Frames

end RemoteCall
