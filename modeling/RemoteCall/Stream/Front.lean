import RemoteCall.Pdu.Header
/-! Units at the front of a buffer. A unit is cut off as soon as all of it is there. -/

namespace RemoteCall

/-- What stands at the front of a buffer. -/
inductive Front
  | incomplete
  | unit (bytes rest : List UInt8)
  /-- A header whose label cannot be read. -/
  | badLabel (e : Error)
  /-- A header that announces less than its own length. -/
  | tooShort (length : Nat)

def Front.tooShortError (length : Nat) : Error := .malformedPdu 8 (.fragmentBelowHeader length)

def front (buffer : List UInt8) : Front :=
  if buffer.length < Header.size then .incomplete
  else match Header.peekLength buffer with
    | .error e => .badLabel e
    | .ok n =>
      if n < Header.size then .tooShort n
      else match splitExact? n buffer with
        | some (bytes, rest) => .unit bytes rest
        | none => .incomplete

theorem front_unit {buffer bytes rest : List UInt8} (h : front buffer = .unit bytes rest) :
    buffer = bytes ++ rest ∧ Header.size ≤ bytes.length := by
  unfold front at h
  split at h
  · simp at h
  · split at h
    · simp at h
    · rename_i n _
      split at h
      · simp at h
      · rename_i hn
        rw [splitExact?_eq] at h
        by_cases hle : n ≤ buffer.length
        · simp only [hle, if_true, Front.unit.injEq] at h
          obtain ⟨rfl, rfl⟩ := h
          refine ⟨(List.take_append_drop n buffer).symm, ?_⟩
          rw [List.length_take]
          omega
        · simp [hle] at h

theorem length_rest_lt_of_front_unit {buffer bytes rest : List UInt8}
    (h : front buffer = .unit bytes rest) : rest.length < buffer.length := by
  obtain ⟨rfl, hsize⟩ := front_unit h
  have : 0 < Header.size := by decide
  simp only [List.length_append]
  omega

end RemoteCall
