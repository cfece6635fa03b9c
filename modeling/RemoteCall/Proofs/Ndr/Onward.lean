import RemoteCall.Proofs.Ndr.Truncation

/-! What any read does, whether it succeeds or not: it moves on in the data, and it fails only for
what it finds there (`Gives`). What it gives can be counted: strings and arrays are no longer than
their counts say. -/

namespace RemoteCall

/-- The data themselves are at fault, and not the slots that their targets are kept in. -/
def DataDefect.InData : DataDefect → Prop
  | short .. | counts .. | loneSurrogate | unknownArm _ => True
  | inReferent _ defect => defect.InData
  | noReferent _ | wrongType _ | shape => False

def Error.InData : Error → Prop
  | malformedData _ defect => defect.InData
  | _ => False

end RemoteCall

namespace RemoteCall.Ndr

/-- The bytes from one place up to another. -/
structure Takes (bs : List UInt8) (p q : Place) : Prop where
  rest : p.rest = bs ++ q.rest
  position : q.position = p.position + bs.length

theorem Takes.nil (p : Place) : Takes [] p p := ⟨rfl, rfl⟩

theorem Takes.append {bs cs : List UInt8} {p q r : Place} (h : Takes bs p q) (h' : Takes cs q r) :
    Takes (bs ++ cs) p r where
  rest := by rw [h.rest, h'.rest, List.append_assoc]
  position := by rw [h'.position, h.position, List.length_append, Nat.add_assoc]

theorem Takes.length_le {bs : List UInt8} {p q : Place} (h : Takes bs p q) :
    q.rest.length ≤ p.rest.length := by
  simp [h.rest]

section Gives

variable {σ : Type} [Placed σ] {α β γ : Type}

/-- From one place to the same or a later one. -/
def Onward (s t : σ) : Prop := ∃ bs, Takes bs (place s) (place t)

theorem Onward.refl (s : σ) : Onward s s := ⟨[], .nil _⟩

theorem Onward.trans {s t u : σ} (h : Onward s t) (h' : Onward t u) : Onward s u := by
  obtain ⟨bs, hst⟩ := h
  obtain ⟨cs, htu⟩ := h'
  exact ⟨bs ++ cs, hst.append htu⟩

theorem Onward.length_le {s t : σ} (h : Onward s t) :
    (place t).rest.length ≤ (place s).rest.length := by
  obtain ⟨bs, hst⟩ := h
  exact hst.length_le

/-- Wherever the read stops, it has moved on. What it gives is as `P` says, and what it fails for is
in the data. -/
structure Gives (P : α → Prop) (r : EStateM Error σ α) : Prop where
  ok : ∀ s a t, r s = .ok a t → Onward s t ∧ P a
  error : ∀ s e t, r s = .error e t → Onward s t ∧ e.InData

variable {P : α → Prop} {Q : β → Prop} {r : EStateM Error σ α} {f : α → EStateM Error σ β}

theorem Gives.pure {a : α} (h : P a) : Gives P (pure a : EStateM Error σ α) where
  ok := by
    rintro s _ _ ⟨⟩
    exact ⟨.refl s, h⟩
  error := by
    rintro s _ _ ⟨⟩

theorem Gives.bind (hr : Gives P r) (hf : ∀ a, P a → Gives Q (f a)) : Gives Q (r >>= f) where
  ok := by
    intro s b u h
    obtain ⟨a, t, ha, hb⟩ := exists_of_bind_eq_ok h
    obtain ⟨hst, hp⟩ := hr.ok s a t ha
    obtain ⟨htu, hq⟩ := (hf a hp).ok t b u hb
    exact ⟨hst.trans htu, hq⟩
  error := by
    intro s e u h
    cases hs : r s with
    | ok a t =>
      rw [bind_of_eq_ok hs] at h
      obtain ⟨hst, hp⟩ := hr.ok s a t hs
      obtain ⟨htu, he⟩ := (hf a hp).error t e u h
      exact ⟨hst.trans htu, he⟩
    | error e' t =>
      rw [bind_of_eq_error hs] at h
      cases h
      exact hr.error s _ _ hs

theorem Gives.map {k : α → β} (hr : Gives P r) (hk : ∀ a, P a → Q (k a)) :
    Gives Q (do return k (← r)) :=
  hr.bind fun a ha => .pure (hk a ha)

theorem Gives.mapM {read : γ → EStateM Error σ α} (h : ∀ c, Gives P (read c)) (cs : List γ) :
    Gives (fun _ => True) (cs.mapM read) := by
  induction cs with
  | nil => exact .pure trivial
  | cons c cs ih =>
    rw [List.mapM_cons]
    exact (h c).bind fun _ _ => ih.map fun _ _ => trivial

end Gives

/-! ## Single reads -/

section Reads

variable {α : Type} {P : α → Prop}

theorem gives_fail (offset : Nat) (defect : DataDefect) (h : defect.InData) :
    Gives P (fail offset defect : Read α) where
  ok := nofun
  error := by
    rintro d _ _ ⟨⟩
    exact ⟨.refl d, h⟩

theorem gives_takeBytes (n : Nat) (item : DataItem) :
    Gives (fun bs => bs.length = n) (takeBytes n item) where
  ok := by
    intro d bs d' h
    obtain ⟨hlength, hrest, hd⟩ := takeBytes_of_ok h
    exact ⟨⟨bs, hrest, congrArg Decoder.position hd⟩, hlength⟩
  error := by
    intro d e d' h
    rw [takeBytes, splitExact?_eq] at h
    by_cases hn : n ≤ d.rest.length
    · simp [hn] at h
    · simp only [hn, if_false] at h
      cases h
      exact ⟨.refl d, trivial⟩

/-- A read that only looks at its position. -/
theorem Gives.position {f : Nat → Read α} (hf : ∀ n, Gives P (f n)) :
    Gives P (do f (← get).position) where
  ok d := (hf d.position).ok d
  error d := (hf d.position).error d

theorem gives_align (alignment : Nat) : Gives (fun _ => True) (align alignment) :=
  Gives.position (f := fun n => do
    let _ ← takeBytes ((alignment - n % alignment) % alignment) .padding) fun _ =>
      (gives_takeBytes _ _).bind fun _ _ => .pure trivial

theorem gives_readU8 : Gives (fun _ => True) readU8 :=
  (gives_takeBytes 1 .u8).map fun _ _ => trivial

theorem gives_readU16 : Gives (fun _ => True) readU16 :=
  (gives_align 2).bind fun _ _ => (gives_takeBytes 2 .u16).map fun _ _ => trivial

theorem gives_readU32 : Gives (fun _ => True) readU32 :=
  (gives_align 4).bind fun _ _ => (gives_takeBytes 4 .u32).map fun _ _ => trivial

theorem gives_readU64 : Gives (fun _ => True) readU64 :=
  (gives_align 4).bind fun _ _ => (gives_takeBytes 8 .u64).map fun _ _ => trivial

theorem length_unitsOfBytes (n : Nat) {bs : List UInt8} (h : bs.length = 2 * n) :
    (unitsOfBytes bs).length = n := by
  induction n generalizing bs with
  | zero =>
    rw [List.length_eq_zero_iff.mp h]
    rfl
  | succ n ih =>
    match bs with
    | a :: b :: rest =>
      simp only [List.length_cons] at h
      have hrest : (unitsOfBytes rest).length = n := ih (by omega)
      simp [unitsOfBytes, hrest]

/-- The units of a text are those that it was read from, with its terminator. -/
theorem Text.of_ofUnits? {units : List UInt16} {t : Text} (h : Text.ofUnits? units = some t) :
    t.units = units ∧ (t.terminated = false → t.value.toList.getLast? ≠ some '\x00') := by
  unfold ofUnits? at h
  obtain ⟨cs, hcs, rfl⟩ := Option.map_eq_some_iff.mp h
  have hbody := Utf16.encode_decode hcs
  by_cases hlast : units.getLast? = some 0
  · obtain ⟨init, rfl⟩ := List.getLast?_eq_some_iff.mp hlast
    simp only [List.getLast?_concat, beq_self_eq_true, if_true, List.dropLast_concat] at hbody
    simp [Text.units, hbody]
  · have hcounted : (units.getLast? == some 0) = false := by simpa using hlast
    simp only [hcounted, Bool.false_eq_true, if_false] at hbody
    refine ⟨by simp [Text.units, hbody, hcounted], fun _ hnull => hlast ?_⟩
    -- A null at the end would have been taken for the terminator.
    rw [String.toList_ofList] at hnull
    obtain ⟨init, rfl⟩ := List.getLast?_eq_some_iff.mp hnull
    have hunits : units = Utf16.encode init ++ [0] := by
      rw [← hbody, Utf16.encode, List.flatMap_append]
      rfl
    rw [hunits, List.getLast?_concat]

theorem gives_readCharacters (start : Nat) (count : UInt32) :
    Gives Text.Storable (readCharacters start count) := by
  refine (gives_takeBytes _ _).bind fun raw hraw => ?_
  cases ht : Text.ofUnits? (unitsOfBytes raw) with
  | none => exact gives_fail _ _ trivial
  | some t =>
    obtain ⟨hunits, hcounted⟩ := Text.of_ofUnits? ht
    refine .pure ⟨?_, hcounted⟩
    rw [hunits, length_unitsOfBytes _ hraw]
    exact count.toNat_lt

theorem gives_readText : Gives Text.Storable readText := by
  rw [readText_eq]
  refine Gives.position fun start => gives_readU32.bind fun max _ =>
    gives_readU32.bind fun offset _ => gives_readU32.bind fun actual _ => ?_
  dsimp only
  split
  · exact (gives_fail (P := fun _ => True) _ _ (by exact trivial)).bind fun _ _ =>
      gives_readCharacters start actual
  · exact gives_readCharacters start actual

theorem gives_readTimes {read : Read α} (h : Gives P read) (n : Nat) :
    Gives (fun as => as.length = n ∧ ∀ a ∈ as, P a) (readTimes read n) := by
  induction n with
  | zero => exact .pure ⟨rfl, nofun⟩
  | succ n ih =>
    refine h.bind fun a ha => ih.map fun as has => ⟨congrArg (· + 1) has.1, ?_⟩
    exact List.forall_mem_cons.mpr ⟨ha, has.2⟩

end Reads

/-! ## Fixed parts -/

namespace Value

mutual

/-- Strings and arrays of a fixed part can be written with their counts. -/
def Counted : Value → Prop
  | .text t => t.Storable
  | .array items => items.length < 2 ^ 32 ∧ AreCounted items
  | .record members => AreCounted members
  | .choice _ _ arm => arm.Counted
  | _ => True

def AreCounted : List Value → Prop
  | [] => True
  | v :: vs => v.Counted ∧ AreCounted vs

end

theorem areCounted_iff {vs : List Value} : AreCounted vs ↔ ∀ v ∈ vs, v.Counted := by
  induction vs with
  | nil => simp [AreCounted]
  | cons v vs ih => simp [AreCounted, ih]

end Value

open Value

theorem gives_readPointer (target : Layout) : Gives Counted (readPointer target) := by
  rw [readPointer_eq]
  refine gives_readU32.bind fun id _ => ?_
  by_cases hid : id = 0
  · rw [hid, announce_zero]
    exact .pure trivial
  · refine ⟨fun d v d' h => ?_, fun d e d' h => ?_⟩
    · rw [announce_of_ne hid] at h
      cases h
      exact ⟨.refl d, trivial⟩
    · rw [announce_of_ne hid] at h
      cases h

theorem gives_readArray {item : Read Value} (h : Gives Counted item) :
    Gives Counted (readArray item) := by
  refine gives_readU32.bind fun count _ => (gives_readTimes h count.toNat).map fun vs hvs => ?_
  exact ⟨hvs.1 ▸ count.toNat_lt, areCounted_iff.mpr hvs.2⟩

theorem gives_dropArm (twice : Bool) (level : UInt32) (offset : Nat) (id : UInt32) :
    Gives Counted (dropArm twice level offset id) := by
  unfold dropArm
  dsimp only
  split
  · exact (gives_fail (P := fun _ => True) _ _ (by exact trivial)).bind fun _ _ => .pure trivial
  · exact .pure trivial

theorem gives_readArm (twice : Bool) (arms : List (UInt32 × Layout)) (level : UInt32) :
    Gives Counted (readArm twice arms level) := by
  unfold readArm
  cases Layout.arm? arms level with
  | some target => exact (gives_readPointer target).map fun _ h => h
  | none =>
    have hdrop : ∀ offset, Gives Counted (readU32 >>= dropArm twice level offset) :=
      fun offset => gives_readU32.bind fun id _ => gives_dropArm twice level offset id
    exact Gives.position hdrop

theorem gives_readChoice (twice : Bool) (arms : List (UInt32 × Layout)) :
    Gives Counted (readChoice twice arms) := by
  have hlevel : Gives (fun _ => True) (readLevel twice) := by
    cases twice with
    | false => exact gives_readU32
    | true => exact gives_readU32.bind fun _ _ => gives_readU32
  rw [readChoice_eq]
  exact hlevel.bind fun level _ => gives_readArm twice arms level

namespace Layout

mutual

theorem gives_read (g : Grammar) : ∀ l : Layout, Gives Counted (l.read g)
  | .u8 => gives_readU8.map fun _ _ => trivial
  | .u16 => gives_readU16.map fun _ _ => trivial
  | .u32 => gives_readU32.map fun _ _ => trivial
  | .text => gives_readText.map fun _ h => h
  | .array item => gives_readArray (gives_read g item)
  | .record members => (gives_readAll g members).map fun _ h => h
  | .pointer target => gives_readPointer target
  | .link name => gives_readPointer (g name)
  | .choice twice arms => gives_readChoice twice arms

theorem gives_readAll (g : Grammar) : ∀ ls : List Layout, Gives AreCounted (readAll g ls)
  | [] => .pure trivial
  | l :: ls => (gives_read g l).bind fun _ hv => (gives_readAll g ls).map fun _ hvs => ⟨hv, hvs⟩

end

end Layout

/-! ## Constructs -/

section Constructs

variable {g : Grammar} {wrap : Error → Error}

theorem inData_inReferent (id : UInt32) {e : Error} (h : e.InData) : (inReferent id e).InData := by
  cases e <;> exact h

theorem gives_readFixed (hwrap : ∀ e, e.InData → (wrap e).InData) (l : Layout) :
    Gives (fun fixed => fixed.1.Counted) (l.readFixed g wrap) where
  ok := by
    rintro p ⟨v, ts⟩ p' h
    obtain ⟨d, hread, -, rfl⟩ := exists_of_readFixed h
    exact (l.gives_read g).ok _ _ _ hread
  error := by
    intro p e p' h
    cases hread : l.read g p.decoder with
    | ok v d =>
      rw [readFixed_of_ok hread] at h
      cases h
    | error e d =>
      rw [readFixed_of_error hread] at h
      cases h
      obtain ⟨honward, he⟩ := (l.gives_read g).error _ _ _ hread
      exact ⟨honward, hwrap _ he⟩

theorem gives_readTree (depth : Nat) (hwrap : ∀ e, e.InData → (wrap e).InData) (l : Layout) :
    Gives (fun _ => True) (readTree g depth wrap l) := by
  induction depth generalizing wrap l with
  | zero => exact .pure trivial
  | succ depth ih =>
    rw [readTree_succ]
    refine (gives_readFixed hwrap l).bind fun fixed _ => ?_
    have htargets := Gives.mapM (fun t : UInt32 × Layout => ih (fun _ => inData_inReferent t.1) t.2)
      fixed.2
    exact htargets.map fun _ _ => trivial

theorem gives_readConstruct (l : Layout) : Gives (fun _ => True) (readConstruct g l) := by
  have htree : ∀ d : Decoder, Gives (fun _ => True) (readTree g (d.rest.length + 1) id l) :=
    fun d => gives_readTree _ (fun _ h => h) l
  refine ⟨fun d v d' h => ?_, fun d e d' h => ?_⟩
  · exact (htree d).ok _ _ _ ((readConstruct_ok_iff (Nat.lt_succ_self _)).mp ⟨d', h, rfl⟩)
  · exact (htree d).error _ _ _ ((readConstruct_error_iff (Nat.lt_succ_self _)).mp ⟨d', h, rfl⟩)

theorem gives_readUnique (l : Layout) : Gives (fun _ => True) (readUnique g l) := by
  rw [readUnique_eq]
  refine gives_readU32.bind fun id _ => ?_
  unfold readReferred
  split
  · exact .pure trivial
  · exact (gives_readConstruct l).map fun _ _ => trivial

end Constructs

end RemoteCall.Ndr
