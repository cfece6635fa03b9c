import Mathlib.Data.List.Chain
import RemoteCall.Proofs.Ndr.Descent
import RemoteCall.Proofs.Ndr.Independence
import RemoteCall.Proofs.Ndr.Worklist

/-! Reading ends within the data. A construct is read step by step, and nothing bounds the steps
beforehand: its fixed part, then the work that its targets make, then what binds them (`Runs`). For
any data and any layout, those that refer to themselves included, such a run comes to an end, after
no more steps than there are bytes, and on the way it stays in the data (`reading_ends`). -/

namespace RemoteCall.Ndr

/-- Reading a construct step by step. The states that are passed on the way are listed, up to the
one that is left. -/
inductive Runs (g : Grammar) (l : Layout) (d : Decoder) :
    List Decoder → EStateM.Result Error Decoder Value → Prop
  | fixed {e : Error} {d' : Decoder} (h : collecting (l.read g) d = .error e d') :
      Runs g l d [d'] (.error e d')
  | targets {v : Value} {ps : List Pending} {e : Error} {d' d'' : Decoder} {states : List Decoder}
      (h : collecting (l.read g) d = .ok (v, ps) d')
      (hworks : Works g (ps.map .read) d' states (.error e d'')) :
      Runs g l d (d' :: states) (.error e d'')
  | bound {v : Value} {ps : List Pending} {d' d'' : Decoder} {states : List Decoder}
      {result : EStateM.Result Error Decoder Value} (h : collecting (l.read g) d = .ok (v, ps) d')
      (hworks : Works g (ps.map .read) d' states (.ok () d'')) (hbinds : Binds g l v d'' result) :
      Runs g l d (d' :: states ++ [left result]) result

section Runs

variable {g : Grammar} {l : Layout} {d : Decoder} {states : List Decoder}
  {result : EStateM.Result Error Decoder Value}

/-- A run comes to its end. -/
theorem runs_readConstruct (g : Grammar) (l : Layout) (d : Decoder) :
    ∃ states, Runs g l d states (readConstruct g l d) := by
  have hread : readConstruct g l = collecting (l.read g) >>= fun fixed =>
      readTargets g fixed.2 >>= fun _ => bind g l fixed.1 := rfl
  rw [hread]
  cases hfixed : collecting (l.read g) d with
  | error e d' =>
    rw [bind_of_eq_error hfixed]
    exact ⟨[d'], .fixed hfixed⟩
  | ok fixed d' =>
    rw [bind_of_eq_ok hfixed]
    obtain ⟨states, hworks⟩ := works_readTargets (g := g) fixed.2 d'
    cases htargets : readTargets g fixed.2 d' with
    | error e d'' =>
      rw [bind_of_eq_error htargets]
      rw [htargets] at hworks
      exact ⟨d' :: states, .targets hfixed hworks⟩
    | ok u d'' =>
      rw [bind_of_eq_ok htargets]
      rw [htargets] at hworks
      exact ⟨_, .bound hfixed hworks (binds_bind l fixed.1 d'')⟩

/-- There is one run. -/
theorem Runs.unique {states' : List Decoder} {result' : EStateM.Result Error Decoder Value}
    (h : Runs g l d states result) (h' : Runs g l d states' result') :
    states' = states ∧ result' = result := by
  cases h with
  | fixed h =>
    cases h' with
    | fixed h' =>
      cases h.symm.trans h'
      exact ⟨rfl, rfl⟩
    | targets h' => cases h.symm.trans h'
    | bound h' => cases h.symm.trans h'
  | targets h hworks =>
    cases h' with
    | fixed h' => cases h.symm.trans h'
    | targets h' hworks' =>
      cases h.symm.trans h'
      obtain ⟨rfl, hresult⟩ := hworks.unique hworks'
      cases hresult
      exact ⟨rfl, rfl⟩
    | bound h' hworks' =>
      cases h.symm.trans h'
      cases (hworks.unique hworks').2
  | bound h hworks hbinds =>
    cases h' with
    | fixed h' => cases h.symm.trans h'
    | targets h' hworks' =>
      cases h.symm.trans h'
      cases (hworks.unique hworks').2
    | bound h' hworks' hbinds' =>
      cases h.symm.trans h'
      obtain ⟨rfl, hdone⟩ := hworks.unique hworks'
      cases hdone
      cases hbinds.unique hbinds'
      exact ⟨rfl, rfl⟩

theorem Runs.strides (h : Runs g l d states result) : (d :: states).IsChain Strides := by
  have hstays : Stays 0 (collecting (l.read g)) := (l.stays_read g).collecting
  cases h with
  | fixed h => exact .cons_cons (hstays.error _ _ _ (Nat.zero_le _) h).1 (.singleton _)
  | targets h hworks => exact .cons_cons (hstays.ok _ _ _ (Nat.zero_le _) h) hworks.strides
  | @bound v ps d' d'' states result h hworks hbinds =>
    refine .cons_cons (hstays.ok _ _ _ (Nat.zero_le _) h) ?_
    refine List.isChain_append.mpr ⟨hworks.strides, .singleton _, ?_⟩
    rw [hworks.getLast?]
    rintro _ ⟨⟩ _ ⟨⟩
    -- Binding is one more stride, from where the targets end.
    cases hbinds.unique (binds_bind l v d'')
    have hlast : Stays 0 (bind g l v) := stays_bind l v
    cases hbind : bind g l v d'' with
    | ok t d₃ => exact hlast.ok _ _ _ (Nat.zero_le _) hbind
    | error e d₃ => exact (hlast.error _ _ _ (Nat.zero_le _) hbind).1

/-- The fixed part, one step for each byte at the most, and what binds. -/
theorem Runs.length_le (h : Runs g l d states result) : states.length ≤ d.rest.length + 2 := by
  have htargets : ∀ {v : Value} {ps : List Pending} {d' : Decoder} {states : List Decoder}
      {done : EStateM.Result Error Decoder Unit}, collecting (l.read g) d = .ok (v, ps) d' →
      Works g (ps.map .read) d' states done → states.length ≤ d.rest.length := by
    intro v ps d' states done hfixed hworks
    have hrest := rest_of_collecting hfixed
    have hlength := hworks.length_le
    rw [toDo, Task.load_map_read] at hlength
    dsimp only at hrest
    omega
  cases h with
  | fixed h => simp
  | targets h hworks =>
    have hlength := htargets h hworks
    rw [List.length_cons]
    omega
  | bound h hworks hbinds =>
    have hlength := htargets h hworks
    rw [List.length_append, List.length_cons, List.length_singleton]
    omega

end Runs

/-! ## Whatever a decoder is used for -/

/-- The slots of a decoder are paid for, four bytes each, and its place is in the data. -/
structure Decoder.InBounds (limit : Nat) (d : Decoder) : Prop where
  position : d.position ≤ limit
  slots : d.arena.length ≤ d.position / 4

theorem Strides.inBounds {data : List UInt8} {d : Decoder} (h : Strides (.ofBytes data) d) :
    d.InBounds data.length := by
  have hlimit : d.position + d.rest.length = 0 + data.length := h.onward.limit_eq
  have hslots : 4 * d.arena.length + 0 ≤ 4 * 0 + d.position := h.slots
  exact ⟨by omega, by omega⟩

namespace Reading

theorem stays_step {start : Nat} (g : Grammar) (s : Step) : Stays start (s.read g) := by
  cases s with
  | u8 => exact stays_readU8.map
  | u16 => exact stays_readU16.map
  | u32 => exact stays_readU32.map
  | u64 => exact stays_readU64.map
  | bytes n => exact (stays_takeBytes n .run).map
  | text => exact stays_readText.map
  | construct layout => exact (stays_readConstruct layout).map
  | unique layout => exact (stays_readUnique layout).map

theorem stays_read {start : Nat} (r : Reading) : Stays start r.read := by
  cases r with
  | step g s => exact (stays_step g s).map
  | align alignment => exact stays_align alignment
  | part g layout => exact (layout.stays_read g).map

end Reading

/-- Step: a reading is a stride, whether it fails or not. -/
theorem Decoder.strides_perform (d : Decoder) (r : Reading) : Strides d (d.perform r) := by
  unfold perform
  cases h : r.read d with
  | ok a d' => exact r.stays_read.ok d a d' (Nat.zero_le _) h
  | error e d' => exact (r.stays_read.error d e d' (Nat.zero_le _) h).1

/-- Run: so is any number of readings. -/
theorem Decoder.strides_after (d : Decoder) (readings : List Reading) :
    Strides d (d.after readings) := by
  induction readings generalizing d with
  | nil => exact .refl d
  | cons r readings ih => exact (strides_perform d r).trans (ih (d.perform r))

/-- **Reading ends within the data.** Let a decoder have done any readings, of which any may have
failed. It has not passed the end of the data, and has reserved at most one slot for every four
bytes. Whatever it reads next moves it on, never back, and fails for no place outside the data. A
construct is read in a run that ends, the only one there is, after no more steps than there are
bytes, and two; each of its steps is a stride, and all states on the way are in bounds as well. -/
theorem reading_ends (data : List UInt8) (readings : List Reading) :
    ∃ d, (Decoder.ofBytes data).after readings = d ∧ d.InBounds data.length ∧
      (∀ r : Reading, d.position ≤ (d.perform r).position ∧
        ∀ e d', r.read d = .error e d' → e.Within data.length) ∧
      ∀ (g : Grammar) (l : Layout),
        (∃ states, Runs g l d states (readConstruct g l d)) ∧
        (∀ e d', readConstruct g l d = .error e d' → e.Within data.length) ∧
        ∀ states result, Runs g l d states result →
          result = readConstruct g l d ∧ states.length ≤ data.length - d.position + 2 ∧
          (d :: states).IsChain Strides ∧ ∀ d' ∈ states, d'.InBounds data.length := by
  have hstrides := Decoder.strides_after (.ofBytes data) readings
  generalize hd : (Decoder.ofBytes data).after readings = d at hstrides
  have hlimit : d.limit = data.length := hstrides.onward.limit_eq.trans (Nat.zero_add _)
  refine ⟨d, rfl, hstrides.inBounds, fun r => ⟨?_, ?_⟩, fun g l => ⟨?_, ?_, ?_⟩⟩
  · exact (d.strides_perform r).onward.position_le
  · intro e d' h
    exact hlimit ▸ (r.stays_read.error d e d' (Nat.zero_le _) h).2
  · exact runs_readConstruct g l d
  · intro e d' h
    exact hlimit ▸ ((stays_readConstruct l).error d e d' (Nat.zero_le _) h).2
  · intro states result hruns
    have hlength := hruns.length_le
    have hchain := hruns.strides
    obtain ⟨states', hread⟩ := runs_readConstruct g l d
    refine ⟨(hread.unique hruns).2, ?_, hchain, fun d' hd' => ?_⟩
    · unfold Decoder.limit at hlimit
      omega
    · have hpairwise := (List.isChain_iff_pairwise (R := Strides)).mp hchain
      exact (hstrides.trans (List.rel_of_pairwise_cons hpairwise hd')).inBounds

/-- A list whose second element is missing. -/
def sampleCutList : List UInt8 := [1, 0, 0, 0, 7, 0, 0, 0, 5, 0, 0, 0]

/-- A run of bytes that is not there, and after that the list. -/
theorem reading_ends_sampleCutList :
    ∃ d, (Decoder.ofBytes sampleCutList).after [.step sampleGrammar (.bytes 100)] = d ∧
      (Error.malformedData 0 (.short .run 100 12)).Within 12 ∧
      ∃ d' states, Runs sampleGrammar (.link "list") d states
          (.error (.malformedData 12 (.inReferent 5 (.short .u16 2 0))) d') ∧
        (Error.malformedData 12 (.inReferent 5 (.short .u16 2 0))).Within 12 ∧
        states.length ≤ 14 ∧ (d :: states).IsChain Strides ∧ ∀ d' ∈ states, d'.InBounds 12 := by
  obtain ⟨d, rfl, -, hreads, hconstructs⟩ :=
    reading_ends sampleCutList [.step sampleGrammar (.bytes 100)]
  obtain ⟨⟨states, hruns⟩, herror, hstates⟩ := hconstructs sampleGrammar (.link "list")
  obtain ⟨-, hlength, hchain, hbounds⟩ := hstates states _ hruns
  exact ⟨_, rfl, (hreads (.step sampleGrammar (.bytes 100))).2 _ _ rfl, _, states, hruns,
    herror _ _ rfl, hlength, hchain, hbounds⟩

end RemoteCall.Ndr
