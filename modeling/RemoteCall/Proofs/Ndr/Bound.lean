import RemoteCall.Proofs.Ndr.Decoded
import RemoteCall.Proofs.Ndr.DepthFirst

/-! Pointers that are still to be bound. A value that has any cannot be written, and is refused
because of one of them. A construct never leaves any: whatever it is read from, reading may fail, but
binding does not (`constructs_bound`). -/

namespace RemoteCall.Ndr

namespace Value

mutual

/-- The slots of the pointers that are still to be bound, however deep. -/
def unbound : Value → List Nat
  | .array items => unboundAll items
  | .record members => unboundAll members
  | .pointer target => target.unbound
  | .deferred slot => [slot]
  | .unique target => target.unbound
  | .construct inner => inner.unbound
  | .choice _ _ arm => arm.unbound
  | _ => []

def unboundAll : List Value → List Nat
  | [] => []
  | v :: vs => v.unbound ++ unboundAll vs

end

theorem unboundAll_eq_nil {vs : List Value} (h : ∀ v ∈ vs, v.unbound = []) : unboundAll vs = [] := by
  induction vs with
  | nil => rfl
  | cons v vs ih =>
    obtain ⟨hv, hvs⟩ := List.forall_mem_cons.mp h
    simp [unboundAll, hv, ih hvs]

end Value

/-! ## Writers -/

/-- It fails because of one of the slots, or gives something as `P` says. -/
def Blames {α : Type} (slots : List Nat) (P : α → Prop) (x : Except Error α) : Prop :=
  match x with
  | .ok a => P a
  | .error e => ∃ slot ∈ slots, e = .invalidState (.unboundPointer slot)

section Blames

variable {α β : Type} {slots more : List Nat} {P Q : α → Prop} {R : β → Prop} {x : Except Error α}
  {f : α → Except Error β}

theorem Blames.bind (hx : Blames slots P x) (hf : ∀ a, P a → Blames slots R (f a)) :
    Blames slots R (x >>= f) := by
  cases x with
  | ok a => exact hf a hx
  | error e => exact hx

theorem Blames.mono (hx : Blames slots P x) (hslots : slots ⊆ more) (hP : ∀ a, P a → Q a) :
    Blames more Q x := by
  cases x with
  | ok a => exact hP a hx
  | error e =>
    obtain ⟨slot, hslot, he⟩ := hx
    exact ⟨slot, hslots hslot, he⟩

theorem Blames.left (hx : Blames slots P x) : Blames (slots ++ more) P x :=
  hx.mono (List.subset_append_left ..) fun _ h => h

theorem Blames.right (hx : Blames slots P x) : Blames (more ++ slots) P x :=
  hx.mono (List.subset_append_right ..) fun _ h => h

end Blames

/-- The writer succeeds only if there are no such slots. -/
def Minds (w : Writer) (slots : List Nat) : Prop := ∀ c, Blames slots (fun _ => slots = []) (w c)

/-- The same of a fixed part with what waits behind it. -/
def PartMinds (w : PartWriter) (slots : List Nat) : Prop :=
  ∀ c, Blames slots (fun part => Minds (sequence part.waiting) slots) (w c)

section Writers

variable {w w' : PartWriter} {ws ws' : List Writer} {slots slots' : List Nat}

theorem minds_nil : Minds (sequence []) [] := fun _ => rfl

theorem Minds.singleton {w : Writer} (h : Minds w slots) : Minds (sequence [w]) slots := by
  intro c
  rw [sequence]
  exact (h c).bind fun _ hslots => hslots

theorem Minds.append (h : Minds (sequence ws) slots) (h' : Minds (sequence ws') slots') :
    Minds (sequence (ws ++ ws')) (slots ++ slots') := by
  intro c
  rw [sequence_append]
  refine (h c).left.bind fun written hslots => (h' written.2).right.bind fun _ hslots' => ?_
  exact List.append_eq_nil_iff.mpr ⟨hslots, hslots'⟩

theorem partMinds_put (alignment : Nat) (bs : List UInt8) : PartMinds (put alignment bs) [] :=
  fun _ => minds_nil

theorem PartMinds.append (h : PartMinds w slots) (h' : PartMinds w' slots') :
    PartMinds (w.append w') (slots ++ slots') := by
  intro c
  exact (h c).left.bind fun part hpart => (h' part.cursor).right.bind fun _ hpart' =>
    hpart.append hpart'

/-- What waits is written with the construct. -/
theorem PartMinds.complete (h : PartMinds w slots) : Minds (complete w) slots := by
  intro c
  exact (h c).bind fun part hpart => (hpart part.cursor).bind fun _ hslots => hslots

theorem Minds.part {w : Writer} (h : Minds w slots) : PartMinds w.part slots := by
  intro c
  refine (h c).bind fun written hslots => ?_
  rw [hslots]
  exact minds_nil

theorem PartMinds.embed (h : PartMinds w slots) : PartMinds (embed w) slots :=
  fun _ => h.complete.singleton

theorem PartMinds.refer (h : PartMinds w slots) : PartMinds (refer w) slots := by
  intro c
  refine (h.complete (putReferentId c).2).bind fun written hslots => ?_
  rw [hslots]
  exact minds_nil

end Writers

namespace Value

mutual

theorem partMinds : ∀ v : Value, PartMinds v.fixed v.unbound
  | .u8 _ | .u16 _ | .u32 _ | .u64 _ | .bytes _ | .text _ | .null => partMinds_put _ _
  | .array items => (partMinds_put _ _).append (partMindsAll items)
  | .record members => partMindsAll members
  | .pointer target => (partMinds target).embed
  | .deferred slot => fun _ => ⟨slot, List.mem_singleton_self slot, rfl⟩
  | .unique target => (partMinds target).refer
  | .construct inner => (partMinds inner).complete.part
  | .choice _ _ arm => (partMinds_put _ _).append (partMinds arm)

theorem partMindsAll : ∀ vs : List Value, PartMinds (fixedAll vs) (unboundAll vs)
  | [] => partMinds_put 1 []
  | v :: vs => (partMinds v).append (partMindsAll vs)

end

end Value

/-- A construct is added to a stream, or refused for a pointer that is still to be bound. -/
theorem Encoder.blames_add (e : Encoder) (v : Value) :
    Blames v.unbound (fun _ => v.unbound = []) (e.add (.construct v)) := by
  have hpart : Blames v.unbound (fun _ => v.unbound = []) ((Value.construct v).fixed e.cursor) :=
    (v.partMinds.complete e.cursor).bind fun _ hslots => hslots
  exact hpart.bind fun _ hslots => hslots

mutual

theorem Fits.unbound_eq {g : Grammar} : ∀ {l : Layout} {v : Value}, Fits g l v → v.unbound = []
  | _, _, .u8 _ | _, _, .u16 _ | _, _, .u32 _ | _, _, .text _ | _, _, .null _ | _, _, .linkNull _
  | _, _, .choiceNull _ _ _ => rfl
  | _, _, .array _ h => Value.unboundAll_eq_nil fun v hv => (h v hv).unbound_eq
  | _, _, .record h => h.unbound_eq
  | _, _, .pointer h => h.unbound_eq
  | _, _, .link h => h.unbound_eq
  | _, _, .choice _ _ h => h.unbound_eq

theorem FitsAll.unbound_eq {g : Grammar} : ∀ {ls : List Layout} {vs : List Value}, FitsAll g ls vs →
    Value.unboundAll vs = []
  | _, _, .nil => rfl
  | _, _, .cons h hrest => List.append_eq_nil_iff.mpr ⟨h.unbound_eq, hrest.unbound_eq⟩

end

/-! ## Constructs -/

section Constructs

variable {g : Grammar} {l : Layout} {d d' : Decoder} {v : Value} {e : Error}

/-- What was read can be bound, and gives the construct. -/
theorem bind_of_readBound (h : readBound g l pure d = .ok v d') :
    ∃ t d'', bind g l v d' = .ok t d'' ∧ readConstruct g l d = .ok t d'' := by
  have hfollows := readBound_follows g l _ d (Nat.lt_succ_self _)
  rw [h] at hfollows
  cases htree : readTree g (d.rest.length + 1) id l d.place with
  | ok t p =>
    rw [htree] at hfollows
    obtain ⟨-, d'', hbind, -⟩ := hfollows
    refine ⟨t, d'', hbind, ?_⟩
    rw [readConstruct, readBound_eq]
    exact (bind_of_eq_ok h).trans hbind
  | error e p =>
    rw [htree] at hfollows
    cases hfollows

/-- What fails has failed before anything is bound. -/
theorem readBound_of_error (h : readConstruct g l d = .error e d') :
    readBound g l pure d = .error e d' := by
  cases hbound : readBound g l pure d with
  | ok v d₁ =>
    obtain ⟨t, d'', -, hread⟩ := bind_of_readBound hbound
    cases h.symm.trans hread
  | error e₁ d₁ =>
    rw [readConstruct, readBound_eq, bind_of_eq_error hbound] at h
    exact h

end Constructs

/-- **Binding does not fail and leaves nothing unbound.** Whatever the bytes, once a construct and its
targets are read they can be bound. A construct that cannot be read fails before that, for what is in
the data and not for a slot. What it is read as has no pointer that is still to be bound, and can be
added to any stream. To add a value fails just when it has such a pointer, and then tells one of
them. -/
theorem constructs_bound :
    (∀ (g : Grammar) (l : Layout) (d d' : Decoder),
      (∀ v, readBound g l pure d = .ok v d' →
        ∃ t d'', bind g l v d' = .ok t d'' ∧ readConstruct g l d = .ok t d'') ∧
      (∀ e, readConstruct g l d = .error e d' →
        readBound g l pure d = .error e d' ∧ e.InData) ∧
      ∀ v, readConstruct g l d = .ok v d' →
        v.unbound = [] ∧ ∀ s : Encoder, ∃ s', s.add (.construct v) = .ok s') ∧
    ∀ (s : Encoder) (v : Value),
      ((∃ e, s.add (.construct v) = .error e) ↔ v.unbound ≠ []) ∧
      ∀ e, s.add (.construct v) = .error e →
        ∃ slot ∈ v.unbound, e = .invalidState (.unboundPointer slot) := by
  have hadd : ∀ (s : Encoder) (v : Value),
      ((∃ e, s.add (.construct v) = .error e) ↔ v.unbound ≠ []) ∧
      ∀ e, s.add (.construct v) = .error e →
        ∃ slot ∈ v.unbound, e = .invalidState (.unboundPointer slot) := by
    intro s v
    have hblames := s.blames_add v
    cases hs : s.add (.construct v) with
    | ok s' =>
      rw [hs] at hblames
      have hbound : v.unbound = [] := hblames
      simp [hbound]
    | error e =>
      rw [hs] at hblames
      obtain ⟨slot, hslot, rfl⟩ := hblames
      refine ⟨⟨fun _ => List.ne_nil_of_mem hslot, fun _ => ⟨_, rfl⟩⟩, ?_⟩
      rintro _ ⟨⟩
      exact ⟨slot, hslot, rfl⟩
  refine ⟨fun g l d d' => ⟨fun v h => bind_of_readBound h, fun e h => ?_, fun v h => ?_⟩, hadd⟩
  · exact ⟨readBound_of_error h, ((gives_readConstruct l).error d e d' h).2⟩
  · have hbound := (fits_of_readConstruct h).unbound_eq
    refine ⟨hbound, fun s => ?_⟩
    cases hs : s.add (.construct v) with
    | ok s' => exact ⟨s', rfl⟩
    | error e => exact absurd hbound ((hadd s v).1.mp ⟨e, hs⟩)

/-- Two pointers. In the data they have the same id. -/
def sampleTwins : Layout := .record [.pointer .u16, .pointer .u32]

def sampleTwinsValue : Value := .record [.pointer (.u16 7), .pointer (.u32 9)]

def sampleTwinsData : List UInt8 := [5, 0, 0, 0, 5, 0, 0, 0, 7, 0, 1, 1, 9, 0, 0, 0]

/-- The slots are filled one after the other, and emptied when the pointers are bound. -/
theorem readConstruct_sampleTwins :
    readConstruct .empty sampleTwins (.ofBytes sampleTwinsData) =
      .ok sampleTwinsValue ⟨[], 16, [], [⟨5, none⟩, ⟨5, none⟩]⟩ := by
  have hfixed : sampleTwins.read .empty (.ofBytes sampleTwinsData) =
      .ok (.record [.deferred 0, .deferred 1]) ⟨[7, 0, 1, 1, 9, 0, 0, 0], 8,
        [⟨5, 0, .u16⟩, ⟨5, 1, .u32⟩], [⟨5, none⟩, ⟨5, none⟩]⟩ := rfl
  have htargets : readTargets .empty [⟨5, 0, .u16⟩, ⟨5, 1, .u32⟩]
      ⟨[7, 0, 1, 1, 9, 0, 0, 0], 8, [], [⟨5, none⟩, ⟨5, none⟩]⟩ =
      .ok () ⟨[], 16, [], [⟨5, some (.u16, .u16 7)⟩, ⟨5, some (.u32, .u32 9)⟩]⟩ := rfl
  exact readConstruct_of_steps hfixed htargets rfl

/-- All of the data, all but its last number, and a value that is left with a slot. -/
theorem constructs_bound_sampleTwins :
    (∃ v d, readConstruct .empty sampleTwins (.ofBytes sampleTwinsData) = .ok v d ∧
      v.unbound = [] ∧ ∃ s, Encoder.empty.add (.construct v) = .ok s) ∧
    (∃ e d, readConstruct .empty sampleTwins (.ofBytes (sampleTwinsData.take 12)) = .error e d ∧
      e.InData) ∧
    ∃ e, Encoder.empty.add (.construct (.record [.null, .deferred 1])) = .error e ∧
      ∃ slot ∈ [1], e = .invalidState (.unboundPointer slot) := by
  obtain ⟨hread, hadd⟩ := constructs_bound
  have hok := readConstruct_sampleTwins
  have hshort : readConstruct .empty sampleTwins (.ofBytes (sampleTwinsData.take 12)) =
      .error (.malformedData 12 (.inReferent 5 (.short .u32 4 0)))
        ⟨[], 12, [], [⟨5, some (.u16, .u16 7)⟩, ⟨5, none⟩]⟩ := rfl
  obtain ⟨hbound, hadds⟩ := (hread _ _ _ _).2.2 _ hok
  obtain ⟨hfails, hblames⟩ := hadd .empty (.record [.null, .deferred 1])
  obtain ⟨e, he⟩ := hfails.mpr (List.cons_ne_nil 1 [])
  exact ⟨⟨_, _, hok, hbound, hadds .empty⟩, ⟨_, _, hshort, ((hread _ _ _ _).2.1 _ hshort).2⟩,
    e, he, hblames e he⟩

end RemoteCall.Ndr
