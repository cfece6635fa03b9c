import RemoteCall.Ndr.Marshal
import RemoteCall.Proofs.Ndr.Stream

/-! Messages, parameter by parameter. A parameter whose type is lawful is read back as the member
that was written, and a message that is read parameter by parameter is read back as a whole
(`Message.roundTrips_of_passes`). -/

namespace RemoteCall.Ndr

/-- Types whose storable members are told from their values. -/
class LawfulMarshal (α : Type) [Marshal α] where
  Storable : α → Prop
  fits : ∀ {a : α}, Storable a → Fits .empty (Marshal.layout α) (toValue a)
  ofValue?_toValue : ∀ {a : α}, Storable a → ofValue? (toValue a) = some a

export LawfulMarshal (Storable ofValue?_toValue)

instance : LawfulMarshal UInt32 where
  Storable _ := True
  fits {n} _ := .u32 n
  ofValue?_toValue _ := rfl

/-- A string that can be told from all others on the wire. -/
instance : LawfulMarshal Text where
  Storable := Text.Storable
  fits := .text
  ofValue?_toValue _ := rfl

section Constructors

variable {α : Type} [Marshal α] [LawfulMarshal α]

theorem mapM_ofValue?_toValue {as : List α} (h : ∀ a ∈ as, Storable a) :
    (as.map toValue).mapM ofValue? = some as := by
  induction as with
  | nil => rfl
  | cons a as ih =>
    obtain ⟨ha, has⟩ := List.forall_mem_cons.mp h
    simp [ofValue?_toValue ha, ih has]

/-- The length of an array fits its count. -/
instance : LawfulMarshal (List α) where
  Storable as := as.length < 2 ^ 32 ∧ ∀ a ∈ as, Storable a
  fits {as} h := by
    refine .array (by rw [List.length_map]; exact h.1) ?_
    rintro v hv
    obtain ⟨a, ha, rfl⟩ := List.mem_map.mp hv
    exact LawfulMarshal.fits (h.2 a ha)
  ofValue?_toValue h := mapM_ofValue?_toValue h.2

/-- An embedded pointer is null or bound. -/
instance : LawfulMarshal (Option α) where
  Storable a := ∀ x ∈ a, Storable x
  fits {a} h := by
    cases a with
    | none => exact .null _
    | some x => exact .pointer (LawfulMarshal.fits (h x rfl))
  ofValue?_toValue {a} h := by
    cases a with
    | none => rfl
    | some x =>
      change (ofValue? (toValue x)).map some = _
      rw [ofValue?_toValue (h x rfl)]
      rfl

/-- A level with the pointer of its arm. -/
theorem fits_choice {twice : Bool} {arms : List (UInt32 × Layout)} {level : UInt32}
    (harm : Layout.arm? arms level = some (Marshal.layout α)) {a : Option α} (h : Storable a) :
    Fits .empty (.choice twice arms) (.choice twice level (toValue a)) := by
  cases a with
  | none => exact .choiceNull twice arms level
  | some x => exact .choice twice harm (LawfulMarshal.fits (h x rfl))

end Constructors

/-! ## Parameters -/

section Parameters

variable {α β : Type} {w w' : PartWriter} {r : Read α} {f : α → Read β} {a : α} {b : β}

theorem append_of_ok {bs cs : List UInt8} {c c₁ c₂ : Cursor} (h : w c = .ok ⟨bs, [], c₁⟩)
    (h' : w' c₁ = .ok ⟨cs, [], c₂⟩) : w.append w' c = .ok ⟨bs ++ cs, [], c₂⟩ := by
  unfold PartWriter.append
  rw [h]
  change (w' c₁ >>= fun part => _) = _
  rw [h']
  rfl

/-- What is written behind is read next. -/
theorem Passes.append (h : Passes w r a) (h' : Passes w' (f a) b) :
    Passes (w.append w') (r >>= f) b := by
  intro c hc
  obtain ⟨bs, c₁, hw, hadvance, hread⟩ := h c hc
  obtain ⟨cs, c₂, hw', hadvance', hread'⟩ := h' c₁ (hadvance.nextId hc)
  refine ⟨bs ++ cs, c₂, append_of_ok hw hw', hadvance.trans hadvance', ?_⟩
  intro rest d hrest hposition
  rw [List.append_assoc] at hrest
  obtain ⟨d₁, ha, hrest₁, hposition₁⟩ := hread (cs ++ rest) d hrest hposition
  obtain ⟨d₂, hb, hplace⟩ := hread' rest d₁ hrest₁ hposition₁
  exact ⟨d₂, Read.bind_ok_iff.mpr ⟨a, d₁, ha, hb⟩, hplace⟩

theorem Passes.then_pure (h : Passes w r a) (hf : f a = pure b) : Passes w (r >>= f) b := by
  intro c hc
  obtain ⟨bs, c', hw, hadvance, hread⟩ := h c hc
  refine ⟨bs, c', hw, hadvance, fun rest d hrest hposition => ?_⟩
  obtain ⟨d', ha, hplace⟩ := hread rest d hrest hposition
  refine ⟨d', Read.bind_ok_iff.mpr ⟨a, d', ha, ?_⟩, hplace⟩
  rw [hf]
  rfl

theorem passes_nil (b : β) : Passes (Value.fixedAll []) (pure b) b := by
  refine passes_put fun position => ?_
  rw [paddingBytes_one]
  exact gets_pure b

theorem passes_u32 (n : UInt32) : Passes (Value.u32 n).fixed readU32 n :=
  passes_put (gets_u32 n)

variable [Marshal α] [LawfulMarshal α]

theorem expect_toValue (ha : Storable a) : expect α (toValue a) = pure a := by
  unfold expect
  rw [ofValue?_toValue ha]

theorem passes_readAs (ha : Storable a) : Passes (construct a).fixed (readAs α) a :=
  (LawfulMarshal.fits ha).passes_construct.then_pure (expect_toValue ha)

theorem passes_readOptional {a : Option α} (ha : Storable a) :
    Passes (optional a).fixed (readOptional α) a := by
  cases a with
  | none => exact (passes_null .empty _).then_pure rfl
  | some x =>
    have hx : Storable x := ha x rfl
    refine (LawfulMarshal.fits hx).passes_unique.then_pure ?_
    change (expect α (toValue x) >>= fun x => pure (some x)) = _
    rw [expect_toValue hx]
    rfl

end Parameters

/-! ## Reading less than was written -/

/-- All of a value is put at once, and `a` is read from the same place, whatever is left of it. -/
def Starts {α : Type} (w : PartWriter) (r : Read α) (a : α) : Prop :=
  ∀ c : Cursor, c.nextId ≠ 0 → ∃ bs c', w c = .ok ⟨bs, [], c'⟩ ∧ c.Advances c' bs ∧
    ∀ (rest : List UInt8) (d : Decoder), d.rest = bs ++ rest → d.position = c.length →
      ∃ d', r d = .ok a d'

section Starts

variable {α β : Type} {w w' : PartWriter} {r : Read α} {f : α → Read β} {a : α} {b : β}

theorem Passes.starts (h : Passes w r a) (b : β) : Starts w (pure b) b := by
  intro c hc
  obtain ⟨bs, c', hw, hadvance, -⟩ := h c hc
  exact ⟨bs, c', hw, hadvance, fun _ d _ _ => ⟨d, rfl⟩⟩

theorem Passes.append_starts (h : Passes w r a) (h' : Starts w' (f a) b) :
    Starts (w.append w') (r >>= f) b := by
  intro c hc
  obtain ⟨bs, c₁, hw, hadvance, hread⟩ := h c hc
  obtain ⟨cs, c₂, hw', hadvance', hread'⟩ := h' c₁ (hadvance.nextId hc)
  refine ⟨bs ++ cs, c₂, append_of_ok hw hw', hadvance.trans hadvance', ?_⟩
  intro rest d hrest hposition
  rw [List.append_assoc] at hrest
  obtain ⟨d₁, ha, hrest₁, hposition₁⟩ := hread (cs ++ rest) d hrest hposition
  obtain ⟨d₂, hb⟩ := hread' rest d₁ hrest₁ hposition₁
  exact ⟨d₂, Read.bind_ok_iff.mpr ⟨a, d₁, ha, hb⟩⟩

end Starts

/-! ## Whole messages -/

namespace Message

variable {α : Type} [Message α] {a b : α}

/-- The message is written, and read back from all of the bytes. -/
def RoundTrips (a : α) : Prop :=
  ∃ bytes, encode a = .ok bytes ∧ decode α bytes = .ok a ∧
    ∃ d, (read : Read α) (.ofBytes bytes) = .ok a d ∧ d.rest = []

/-- When nothing waits behind the parameters, their fixed parts are the whole message. -/
theorem encode_of_fixedAll {bytes : List UInt8} {c : Cursor}
    (h : Value.fixedAll (parameters a) .start = .ok ⟨bytes, [], c⟩) : encode a = .ok bytes := by
  change ((Value.fixedAll (parameters a) .start >>= fun part => _) >>= fun written => _) = _
  rw [h]
  change Except.ok (bytes ++ []) = _
  rw [List.append_nil]

theorem roundTrips_of_passes (h : Passes (Value.fixedAll (parameters a)) read a) :
    RoundTrips a := by
  obtain ⟨bytes, c, hw, -, hread⟩ := h .start (by decide)
  obtain ⟨d, hd, hrest, -⟩ := hread [] (.ofBytes bytes) (List.append_nil bytes).symm rfl
  refine ⟨bytes, encode_of_fixedAll hw, ?_, d, hd, hrest⟩
  unfold decode
  rw [hd]

/-- A message that is not read to its end. -/
theorem decode_of_starts (h : Starts (Value.fixedAll (parameters a)) read b) :
    ∃ bytes, encode a = .ok bytes ∧ decode α bytes = .ok b := by
  obtain ⟨bytes, c, hw, -, hread⟩ := h .start (by decide)
  obtain ⟨d, hd⟩ := hread [] (.ofBytes bytes) (List.append_nil bytes).symm rfl
  refine ⟨bytes, encode_of_fixedAll hw, ?_⟩
  unfold decode
  rw [hd]

end Message

end RemoteCall.Ndr
