import RemoteCall.Proofs.Ndr.Messages

/-! Members that are not told from others on the wire. A counted string that ends in a null has the
units of a terminated one, and that is what is read (`Text.asRead`). So whatever can be counted is
read as some member that is written in the same way (`Rereads`). -/

namespace RemoteCall.Ndr

/-! ## Strings -/

/-- The string that is read where this one is written: a null at the end of a counted string is its
terminator. -/
def Text.asRead (t : Text) : Text :=
  if t.terminated = false ∧ t.value.toList.getLast? = some '\x00' then
    ⟨String.ofList t.value.toList.dropLast, true⟩
  else t

theorem Text.units_asRead (t : Text) : t.asRead.units = t.units := by
  unfold asRead
  split
  · rename_i h
    obtain ⟨hcounted, hlast⟩ := h
    obtain ⟨init, hinit⟩ := List.getLast?_eq_some_iff.mp hlast
    unfold units
    rw [hcounted, String.toList_ofList, hinit, List.dropLast_concat, if_pos rfl,
      if_neg Bool.false_ne_true, List.append_nil, Utf16.encode, Utf16.encode, List.flatMap_append]
    rfl
  · rfl

theorem Text.storable_asRead {t : Text} (h : t.units.length < 2 ^ 32) : t.asRead.Storable := by
  refine ⟨by rwa [units_asRead], ?_⟩
  unfold asRead
  split
  · nofun
  · rename_i hother
    exact fun hcounted hlast => hother ⟨hcounted, hlast⟩

/-! ## Values that are written in the same way -/

section Congruence

variable {v w : Value} {vs ws : List Value}

theorem fixedAll_congr (h : v.fixed = w.fixed) (hrest : Value.fixedAll vs = Value.fixedAll ws) :
    Value.fixedAll (v :: vs) = Value.fixedAll (w :: ws) := by
  change v.fixed.append (Value.fixedAll vs) = w.fixed.append (Value.fixedAll ws)
  rw [h, hrest]

theorem fixed_choice_congr (twice : Bool) (level : UInt32) (h : v.fixed = w.fixed) :
    (Value.choice twice level v).fixed = (Value.choice twice level w).fixed := by
  change (put 4 _).append v.fixed = (put 4 _).append w.fixed
  rw [h]

end Congruence

/-! ## Types -/

/-- Types whose members are written as members that are read back. -/
class Rereads (α : Type) [Marshal α] [LawfulMarshal α] where
  /-- What is read where a member is written. -/
  asRead : α → α
  /-- The strings and arrays in a member can be counted. -/
  Sized : α → Prop
  storable_asRead : ∀ {a : α}, Sized a → Storable (asRead a)
  fixed_asRead : ∀ a : α, (toValue (asRead a)).fixed = (toValue a).fixed

export Rereads (asRead Sized storable_asRead fixed_asRead)

instance : Rereads Text where
  asRead := Text.asRead
  Sized t := t.units.length < 2 ^ 32
  storable_asRead := Text.storable_asRead
  fixed_asRead t := by
    change put 4 t.asRead.bytes = put 4 t.bytes
    rw [Text.bytes, Text.bytes, Text.units_asRead]

section Constructors

variable {α : Type} [Marshal α] [LawfulMarshal α] [Rereads α]

theorem fixedAll_asRead (as : List α) :
    Value.fixedAll ((as.map asRead).map toValue) = Value.fixedAll (as.map toValue) := by
  induction as with
  | nil => rfl
  | cons a as ih => exact fixedAll_congr (fixed_asRead a) ih

instance : Rereads (List α) where
  asRead as := as.map asRead
  Sized as := as.length < 2 ^ 32 ∧ ∀ a ∈ as, Sized a
  storable_asRead {as} h := by
    refine ⟨by rw [List.length_map]; exact h.1, fun _ hmem => ?_⟩
    obtain ⟨a, ha, rfl⟩ := List.mem_map.mp hmem
    exact storable_asRead (h.2 a ha)
  fixed_asRead as := by
    change (put 4 (dword (countOf ((as.map asRead).map toValue).length))).append
        (Value.fixedAll ((as.map asRead).map toValue)) =
      (put 4 (dword (countOf (as.map toValue).length))).append (Value.fixedAll (as.map toValue))
    rw [fixedAll_asRead, List.length_map, List.length_map, List.length_map]

instance : Rereads (Option α) where
  asRead a := a.map asRead
  Sized a := ∀ x ∈ a, Sized x
  storable_asRead {a} h := by
    intro _ hmem
    obtain ⟨x, hx, rfl⟩ := Option.map_eq_some_iff.mp hmem
    exact storable_asRead (h x hx)
  fixed_asRead a := by
    cases a with
    | none => rfl
    | some x =>
      change embed (toValue (asRead x)).fixed = embed (toValue x).fixed
      rw [fixed_asRead]

/-! ## Messages -/

theorem fixed_construct_asRead (a : α) : (construct (asRead a)).fixed = (construct a).fixed := by
  change (complete (toValue (asRead a)).fixed).part = (complete (toValue a).fixed).part
  rw [fixed_asRead]

theorem fixed_optional_asRead (a : Option α) :
    (optional (asRead a)).fixed = (optional a).fixed := by
  cases a with
  | none => rfl
  | some x =>
    change refer (toValue (asRead x)).fixed = refer (toValue x).fixed
    rw [fixed_asRead]

end Constructors

/-- Messages with the same fixed parts are written in the same way. -/
theorem Message.encode_congr {α : Type} [Message α] {a b : α}
    (h : Value.fixedAll (parameters a) = Value.fixedAll (parameters b)) :
    encode a = encode b := by
  change (complete (Value.fixedAll (parameters a)) .start >>= fun written => _) = _
  rw [h]
  rfl

end RemoteCall.Ndr
