import RemoteCall.Proofs.Ndr.Onward

/-! A construct does not depend on what was read before it. Whatever a decoder was used for, and
whatever failed, it reads the next construct or pointer parameter as a fresh decoder does that was
moved to the same position, and the pointers that were pending stay so (`constructs_afresh`). -/

namespace RemoteCall.Ndr

/-! ## Two decoders at one place -/

/-- Both reads end at the same place, with the same value or with the same error. What there was in
`d`, where the first one began, is kept when they succeed. -/
def Afresh {α : Type} (d : Decoder) :
    EStateM.Result Error Decoder α → EStateM.Result Error Decoder α → Prop
  | .ok a d', .ok b e' => b = a ∧ e'.place = d'.place ∧ d.KeptIn d'
  | .error x d', .error y e' => y = x ∧ e'.place = d'.place
  | _, _ => False

section Afresh

variable {α β : Type} {d e : Decoder}

theorem Afresh.map {r s : Read α} (k : α → β) (h : Afresh d (r d) (s e)) :
    Afresh d ((do return k (← r) : Read β) d) ((do return k (← s) : Read β) e) := by
  rw [Read.bind_eq, Read.bind_eq]
  cases hr : r d <;> cases hs : s e <;> rw [hr, hs] at h
  · exact ⟨congrArg k h.1, h.2⟩
  · cases h
  · cases h
  · exact h

/-- Both follow the tree that is there. -/
theorem readConstruct_afresh (g : Grammar) (l : Layout) (h : e.place = d.place) :
    Afresh d (readConstruct g l d) (readConstruct g l e) := by
  have hlength : e.rest.length = d.rest.length := congrArg (fun p => p.rest.length) h
  have hd := readConstruct_follows g l (d.rest.length + 1) d (Nat.lt_succ_self _)
  have he := readConstruct_follows g l (d.rest.length + 1) e (by omega)
  rw [h] at he
  cases htree : readTree g (d.rest.length + 1) id l d.place <;>
    cases hrd : readConstruct g l d <;> cases hre : readConstruct g l e <;>
    simp only [htree, hrd, hre, Follows] at hd he
  · exact ⟨he.2.1.trans hd.2.1.symm, he.1.trans hd.1.symm, hd.2.2⟩
  · exact ⟨he.2.trans hd.2.symm, he.1.trans hd.1.symm⟩

/-- The decoder at another place. -/
def Decoder.movedTo (d : Decoder) (p : Place) : Decoder :=
  { d with rest := p.rest, position := p.position }

theorem Afresh.of_movedTo {p : Place} {r s : EStateM.Result Error Decoder α}
    (h : Afresh (d.movedTo p) r s) : Afresh d r s := by
  cases r <;> cases s
  · obtain ⟨hvalue, hplace, hpending, hlength, hcontent⟩ := h
    exact ⟨hvalue, hplace, hpending, hlength, hcontent⟩
  · exact h
  · exact h
  · exact h

end Afresh

/-! ## Numbers -/

/-- A read that looks at its place, and changes nothing else. -/
def Bare {α : Type} (r : Read α) : Prop :=
  ∀ d e : Decoder, e.place = d.place →
    (∃ a p, r d = .ok a (d.movedTo p) ∧ r e = .ok a (e.movedTo p)) ∨
    ∃ x p, r d = .error x (d.movedTo p) ∧ r e = .error x (e.movedTo p)

section Bare

variable {α β : Type} {r : Read α} {f : α → Read β}

theorem Bare.pure (a : α) : Bare (pure a : Read α) := by
  intro d e h
  refine Or.inl ⟨a, d.place, rfl, ?_⟩
  rw [← h]
  rfl

theorem Bare.bind (hr : Bare r) (hf : ∀ a, Bare (f a)) : Bare (r >>= f) := by
  intro d e h
  obtain ⟨a, p, hd, he⟩ | ⟨x, p, hd, he⟩ := hr d e h
  · rw [bind_of_eq_ok hd, bind_of_eq_ok he]
    exact hf a (d.movedTo p) (e.movedTo p) rfl
  · exact Or.inr ⟨x, p, bind_of_eq_error hd, bind_of_eq_error he⟩

/-- A read that only looks at its position. -/
theorem Bare.position {f : Nat → Read α} (hf : ∀ n, Bare (f n)) :
    Bare (do f (← get).position) := by
  intro d e h
  have hsame : (do f (← get).position : Read α) e = f d.position e :=
    congrArg (fun n => f n e) (congrArg Place.position h)
  rw [hsame]
  exact hf d.position d e h

theorem bare_takeBytes (n : Nat) (item : DataItem) : Bare (takeBytes n item) := by
  intro d e h
  obtain ⟨hrest, hposition⟩ := Place.mk.inj h
  unfold takeBytes
  rw [hrest, hposition]
  cases splitExact? n d.rest with
  | none =>
    refine Or.inr ⟨_, d.place, rfl, ?_⟩
    rw [← h]
    rfl
  | some parts => exact Or.inl ⟨parts.1, ⟨parts.2, d.position + n⟩, rfl, rfl⟩

theorem bare_readU32 : Bare readU32 := by
  have halign : Bare (align 4) :=
    Bare.position (f := fun n => do
      let _ ← takeBytes ((4 - n % 4) % 4) .padding) fun _ =>
        (bare_takeBytes _ _).bind fun _ => .pure ()
  exact halign.bind fun _ => (bare_takeBytes 4 .u32).bind fun _ => .pure _

end Bare

theorem readUnique_afresh {d e : Decoder} (g : Grammar) (l : Layout) (h : e.place = d.place) :
    Afresh d (readUnique g l d) (readUnique g l e) := by
  rw [readUnique_eq]
  obtain ⟨id, p, hd, he⟩ | ⟨x, p, hd, he⟩ := bare_readU32 d e h
  · rw [bind_of_eq_ok hd, bind_of_eq_ok he]
    unfold readReferred
    by_cases hid : id = 0
    · simp only [hid, if_true]
      exact ⟨rfl, rfl, rfl, Nat.le_refl _, fun _ _ => rfl⟩
    · simp only [hid, if_false]
      have hconstruct : Afresh (d.movedTo p) (readConstruct g l (d.movedTo p))
          (readConstruct g l (e.movedTo p)) := readConstruct_afresh g l rfl
      exact (hconstruct.map some).of_movedTo
  · rw [bind_of_eq_error hd, bind_of_eq_error he]
    exact ⟨rfl, rfl⟩

/-! ## Whatever was read -/

/-- What a decoder can be used for. -/
inductive Reading
  | step (g : Grammar) (s : Step)
  | align (alignment : Nat) (pos : 0 < alignment)
  /-- A fixed part: a number, a string, an array, a record or a pointer. Its targets stay pending. -/
  | part (g : Grammar) (layout : Layout)

namespace Reading

def read : Reading → Read Unit
  | step g s => do let _ ← s.read g
  | align alignment _ => Ndr.align alignment
  | part g layout => do let _ ← layout.read g

theorem gives_step (g : Grammar) (s : Step) : Gives (fun _ => True) (s.read g) := by
  cases s with
  | u8 => exact gives_readU8.map fun _ _ => trivial
  | u16 => exact gives_readU16.map fun _ _ => trivial
  | u32 => exact gives_readU32.map fun _ _ => trivial
  | u64 => exact gives_readU64.map fun _ _ => trivial
  | bytes n => exact (gives_takeBytes n .run).map fun _ _ => trivial
  | text => exact gives_readText.map fun _ _ => trivial
  | construct layout => exact (gives_readConstruct layout).map fun _ _ => trivial
  | unique layout => exact (gives_readUnique layout).map fun _ _ => trivial

theorem gives_read (r : Reading) : Gives (fun _ => True) r.read := by
  cases r with
  | step g s => exact (gives_step g s).map fun _ _ => trivial
  | align alignment => exact gives_align alignment
  | part g layout => exact (layout.gives_read g).map fun _ _ => trivial

end Reading

namespace Decoder

/-- The decoder after a reading. When it fails, the decoder stays as it was left. -/
def perform (d : Decoder) (r : Reading) : Decoder :=
  match r.read d with
  | .ok _ d' => d'
  | .error _ d' => d'

def after (d : Decoder) (readings : List Reading) : Decoder := readings.foldl perform d

/-- Step: no reading leaves the data. -/
theorem onward_perform (d : Decoder) (r : Reading) : Onward d (d.perform r) := by
  unfold perform
  cases h : r.read d with
  | ok a d' => exact (r.gives_read.ok d a d' h).1
  | error e d' => exact (r.gives_read.error d e d' h).1

/-- Run: neither do any readings in a row. -/
theorem onward_after (d : Decoder) (readings : List Reading) : Onward d (d.after readings) := by
  induction readings generalizing d with
  | nil => exact .refl d
  | cons r readings ih => exact (onward_perform d r).trans (ih (d.perform r))

end Decoder

/-- **Constructs are read afresh.** After any readings, of which any may have failed and any may have
left pointers pending, a construct or a pointer parameter of any layout is read as from a fresh
decoder that skipped to the same position: with the same value or error, up to the same place. When
it is read, what is pending is what was, and the slots that were there hold what they held. -/
theorem constructs_afresh (data : List UInt8) (readings : List Reading) :
    ∃ d fresh, (Decoder.ofBytes data).after readings = d ∧
      takeBytes d.position .run (.ofBytes data) = .ok (data.take d.position) fresh ∧
      ∀ (g : Grammar) (l : Layout), Afresh d (readConstruct g l d) (readConstruct g l fresh) ∧
        Afresh d (readUnique g l d) (readUnique g l fresh) := by
  obtain ⟨skipped, hrest, hposition⟩ := Decoder.onward_after (.ofBytes data) readings
  generalize hd : (Decoder.ofBytes data).after readings = d at hrest hposition
  change data = skipped ++ d.rest at hrest
  change d.position = 0 + skipped.length at hposition
  rw [Nat.zero_add] at hposition
  have hskip := takeBytes_append (d := .ofBytes data) .run hrest
  have htake : data.take d.position = skipped := by rw [hrest, hposition, List.take_left]
  refine ⟨d, ⟨d.rest, d.position, [], []⟩, rfl, ?_, fun g l => ⟨?_, ?_⟩⟩
  · rw [htake, hposition, hskip]
    simp [Decoder.ofBytes]
  · exact readConstruct_afresh g l rfl
  · exact readUnique_afresh g l rfl

end RemoteCall.Ndr
