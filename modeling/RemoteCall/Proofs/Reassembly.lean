import Mathlib.Data.List.Induction
import RemoteCall.Proofs.Fragment

/-! An assembly over any sequence of pushes and resets. Its history tells which fragments were
pushed since the last reset, error or completed call. These and the next fragment decide what the
next push gives (`push_after`), and nothing that was dropped is part of a later payload. -/

namespace RemoteCall

/-! ## Runs of fragments -/

/-- Fragments of one call, of which the first one only says that it is the first. -/
structure IsRun (callId : UInt32) (fs : List Fragment) : Prop where
  nonempty : fs ≠ []
  sameCall : ∀ f ∈ fs, f.callId = callId
  firsts : ∀ i (h : i < fs.length), fs[i].flags.isFirst = decide (i = 0)

/-- A run up to some point before the last fragment of its call. -/
structure Begins (callId : UInt32) (fs : List Fragment) : Prop extends IsRun callId fs where
  unfinished : ∀ f ∈ fs, f.flags.isLast = false

/-- The fragment starts a call that has no fragments yet, or goes on with a call that has begun. -/
def Continues (callId : UInt32) (fs : List Fragment) (f : Fragment) : Prop :=
  f.callId = callId ∧
    (fs = [] ∧ f.flags.isFirst = true ∨ Begins callId fs ∧ f.flags.isFirst = false)

section Runs

variable {callId callId' : UInt32} {fs : List Fragment} {f : Fragment} {payload : List UInt8}

theorem not_begins_nil : ¬ Begins callId [] := fun h => h.nonempty rfl

theorem Begins.callId_eq (h : Begins callId fs) (h' : Begins callId' fs) : callId = callId' := by
  obtain ⟨f, hf⟩ := List.exists_mem_of_ne_nil fs h.nonempty
  rw [← h.sameCall f hf, h'.sameCall f hf]

/-- One more fragment starts a run or prolongs one. -/
theorem isRun_concat_iff : IsRun callId (fs ++ [f]) ↔ f.callId = callId ∧
    (fs = [] ∧ f.flags.isFirst = true ∨ IsRun callId fs ∧ f.flags.isFirst = false) := by
  constructor
  · rintro ⟨-, hsame, hfirsts⟩
    simp only [List.forall_mem_append, List.forall_mem_singleton] at hsame
    have hfirst : f.flags.isFirst = decide (fs.length = 0) := by
      simpa using hfirsts fs.length (by simp)
    refine ⟨hsame.2, ?_⟩
    by_cases hnil : fs = []
    · exact .inl ⟨hnil, by simpa [hnil] using hfirst⟩
    · refine .inr ⟨⟨hnil, hsame.1, fun i hi => ?_⟩, by simpa [hnil] using hfirst⟩
      have hi' := hfirsts i (by simp; omega)
      rwa [List.getElem_append_left hi] at hi'
  · rintro ⟨hid, ⟨rfl, hfirst⟩ | ⟨⟨hnil, hsame, hfirsts⟩, hfirst⟩⟩
    · exact ⟨by simp, by simpa using hid, by simpa using hfirst⟩
    · refine ⟨by simp, by simpa [hid, or_imp, forall_and] using hsame, fun i hi => ?_⟩
      rw [List.getElem_append]
      split
      · exact hfirsts i ‹_›
      · have hpos : 0 < fs.length := List.length_pos_iff.mpr hnil
        simp only [List.getElem_singleton, hfirst]
        symm
        simp only [decide_eq_false_iff_not]
        omega

theorem continues_iff : Continues callId fs f ↔
    IsRun callId (fs ++ [f]) ∧ ∀ g ∈ fs, g.flags.isLast = false := by
  rw [isRun_concat_iff, Continues]
  constructor
  · rintro ⟨hid, ⟨rfl, hfirst⟩ | ⟨hbegins, hfirst⟩⟩
    · exact ⟨⟨hid, .inl ⟨rfl, hfirst⟩⟩, by simp⟩
    · exact ⟨⟨hid, .inr ⟨hbegins.toIsRun, hfirst⟩⟩, hbegins.unfinished⟩
  · rintro ⟨⟨hid, hnil | ⟨hrun, hfirst⟩⟩, hlast⟩
    · exact ⟨hid, .inl hnil⟩
    · exact ⟨hid, .inr ⟨⟨hrun, hlast⟩, hfirst⟩⟩

theorem begins_concat_iff :
    Begins callId (fs ++ [f]) ↔ Continues callId fs f ∧ f.flags.isLast = false := by
  rw [continues_iff]
  constructor
  · rintro ⟨hrun, hlast⟩
    simp only [List.forall_mem_append, List.forall_mem_singleton] at hlast
    exact ⟨⟨hrun, hlast.1⟩, hlast.2⟩
  · rintro ⟨⟨hrun, hlast⟩, hf⟩
    exact ⟨hrun, by simpa [hf, or_imp, forall_and] using hlast⟩

/-- What is in front of the last fragment of a call is the beginning of that call. -/
theorem fragments_concat_iff : Fragments callId true (fs ++ [f]) payload ↔
    Continues callId fs f ∧ f.flags.isLast = true ∧ payload = (fs ++ [f]).flatMap (·.stub) := by
  rw [fragments_iff, continues_iff]
  constructor
  · rintro ⟨hnil, hsame, hfirsts, hlasts, hpayload⟩
    refine ⟨⟨⟨hnil, hsame, by simpa using hfirsts⟩, fun g hg => ?_⟩, ?_, hpayload⟩
    · obtain ⟨i, hi, rfl⟩ := List.getElem_of_mem hg
      have hi' := hlasts i (by simp; omega)
      rw [List.getElem_append_left hi] at hi'
      rw [hi', decide_eq_false_iff_not, List.length_append, List.length_singleton]
      omega
    · simpa using hlasts fs.length (by simp)
  · rintro ⟨⟨⟨hnil, hsame, hfirsts⟩, hlast⟩, hf, hpayload⟩
    refine ⟨hnil, hsame, by simpa using hfirsts, fun i hi => ?_, hpayload⟩
    rw [List.getElem_append]
    split
    · rename_i hi'
      rw [hlast _ (List.getElem_mem hi')]
      symm
      simp only [decide_eq_false_iff_not, List.length_append, List.length_singleton]
      omega
    · simp only [List.length_append, List.length_singleton] at hi
      simp only [List.getElem_singleton, hf, List.length_append, List.length_singleton]
      symm
      simp only [decide_eq_true_eq]
      omega

end Runs

/-! ## Histories -/

/-- A unit that carries a fragment. -/
inductive Carrier
  | request (r : Request)
  | response (r : Response)

/-- All that an assembly looks at. -/
def Carrier.fragment : Carrier → Fragment
  | request r => r.fragment
  | response r => r.fragment

namespace Assembly

inductive Operation
  | push (u : Carrier)
  | reset

/-- The fragments among some operations. -/
def Operation.pushed (ops : List Operation) : List Fragment :=
  ops.filterMap fun
    | .push u => some u.fragment
    | .reset => none

/-- An assembly, and what was pushed since the last reset, error or completed call. -/
structure History where
  assembly : Assembly
  run : List Fragment

namespace History

def new : History := ⟨.awaitingFirst, []⟩

def push (h : History) (f : Fragment) : History :=
  match h.assembly.push f with
  | (.ok none, a) => ⟨a, h.run ++ [f]⟩
  | (.ok (some _), a) | (.error _, a) => ⟨a, []⟩

def step (h : History) : Operation → History
  | .push u => h.push u.fragment
  | .reset => new

def after (ops : List Operation) : History := ops.foldl step new

/-- The assembly holds the run, and the run is the beginning of a call. -/
inductive Sound : History → Prop
  | idle {a : Assembly} (ha : a.inProgress = false) : Sound ⟨a, []⟩
  | run {callId : UInt32} {fs : List Fragment} (h : Begins callId fs) :
      Sound ⟨.accumulating callId (fs.flatMap (·.stub)), fs⟩

variable {h : History} {f : Fragment}

theorem Sound.gathered (hs : h.Sound) : h.assembly.gathered = h.run.flatMap (·.stub) := by
  cases hs with
  | idle ha => exact gathered_of_idle ha
  | run => rfl

theorem Sound.accepts_iff (hs : h.Sound) :
    h.assembly.Accepts f ↔ ∃ callId, Continues callId h.run f := by
  cases hs with
  | idle ha =>
    rw [accepts_iff_of_idle ha]
    constructor
    · intro hfirst
      exact ⟨f.callId, rfl, .inl ⟨rfl, hfirst⟩⟩
    · rintro ⟨callId, -, ⟨-, hfirst⟩ | ⟨hbegins, -⟩⟩
      · exact hfirst
      · exact absurd hbegins not_begins_nil
  | @run callId fs hbegins =>
    constructor
    · rintro ⟨hid, hfirst⟩
      exact ⟨callId, hid, .inr ⟨hbegins, hfirst⟩⟩
    · rintro ⟨callId', hid, ⟨hnil, -⟩ | ⟨hbegins', hfirst⟩⟩
      · exact absurd hnil hbegins.nonempty
      · exact ⟨hid.trans (hbegins'.callId_eq hbegins), hfirst⟩

/-- The fragments of a run stay pending until the last one comes. -/
theorem Sound.push_of_begins {callId : UInt32} (hs : h.Sound)
    (hbegins : Begins callId (h.run ++ [f])) :
    h.assembly.push f = (.ok none, .accumulating callId ((h.run ++ [f]).flatMap (·.stub))) := by
  obtain ⟨hcontinues, hlast⟩ := begins_concat_iff.mp hbegins
  rw [push_of_not_last (hs.accepts_iff.mpr ⟨callId, hcontinues⟩) hlast, hs.gathered,
    hcontinues.1]
  simp

theorem Sound.push_of_fragments {callId : UInt32} {payload : List UInt8} (hs : h.Sound)
    (hall : Fragments callId true (h.run ++ [f]) payload) :
    h.assembly.push f = (.ok (some payload), .complete callId) := by
  obtain ⟨hcontinues, hlast, rfl⟩ := fragments_concat_iff.mp hall
  rw [push_of_last (hs.accepts_iff.mpr ⟨callId, hcontinues⟩) hlast, hs.gathered, hcontinues.1]
  simp

/-- What neither prolongs the run nor completes it is refused. -/
theorem Sound.push_cases (hs : h.Sound) (f : Fragment) :
    (∃ callId, Begins callId (h.run ++ [f])) ∨
    (∃ callId payload, Fragments callId true (h.run ++ [f]) payload) ∨
    ((¬ ∃ callId, Continues callId h.run f) ∧
      ∃ defect, h.assembly.push f = (.error defect, .awaitingFirst)) := by
  by_cases hcontinues : ∃ callId, Continues callId h.run f
  · obtain ⟨callId, hcontinues⟩ := hcontinues
    cases hlast : f.flags.isLast with
    | false => exact .inl ⟨callId, begins_concat_iff.mpr ⟨hcontinues, hlast⟩⟩
    | true => exact .inr (.inl ⟨callId, _, fragments_concat_iff.mpr ⟨hcontinues, hlast, rfl⟩⟩)
  · exact .inr (.inr ⟨hcontinues, push_of_not_accepts (hs.accepts_iff.not.mpr hcontinues)⟩)

theorem Sound.push_eq_some_iff {payload : List UInt8} (hs : h.Sound) :
    (h.assembly.push f).1 = .ok (some payload) ↔
      ∃ callId, Fragments callId true (h.run ++ [f]) payload := by
  constructor
  · intro hpush
    rcases hs.push_cases f with ⟨callId, hbegins⟩ | ⟨callId, payload', hall⟩ | ⟨-, defect, herror⟩
    · simp [hs.push_of_begins hbegins] at hpush
    · have hsame : payload' = payload := by simpa [hs.push_of_fragments hall] using hpush
      exact ⟨callId, hsame ▸ hall⟩
    · simp [herror] at hpush
  · rintro ⟨callId, hall⟩
    rw [hs.push_of_fragments hall]

theorem Sound.push_eq_none_iff (hs : h.Sound) :
    (h.assembly.push f).1 = .ok none ↔ ∃ callId, Begins callId (h.run ++ [f]) := by
  constructor
  · intro hpush
    rcases hs.push_cases f with hbegins | ⟨callId, payload, hall⟩ | ⟨-, defect, herror⟩
    · exact hbegins
    · simp [hs.push_of_fragments hall] at hpush
    · simp [herror] at hpush
  · rintro ⟨callId, hbegins⟩
    rw [hs.push_of_begins hbegins]

/-- The errors are all that is neither. -/
theorem Sound.push_eq_error_iff (hs : h.Sound) :
    (∃ defect, h.assembly.push f = (.error defect, .awaitingFirst)) ↔
      ¬ (∃ callId, Begins callId (h.run ++ [f])) ∧
        ¬ ∃ callId payload, Fragments callId true (h.run ++ [f]) payload := by
  constructor
  · rintro ⟨defect, herror⟩
    refine ⟨fun hbegins => ?_, fun ⟨callId, payload, hall⟩ => ?_⟩
    · have hnone := hs.push_eq_none_iff.mpr hbegins
      simp [herror] at hnone
    · simp [hs.push_of_fragments hall] at herror
  · rintro ⟨hbegins, hall⟩
    rcases hs.push_cases f with h' | h' | ⟨-, herror⟩
    · exact absurd h' hbegins
    · exact absurd h' hall
    · exact herror

/-- Step: whatever is done, the assembly goes on holding the run. -/
theorem Sound.step (hs : h.Sound) (o : Operation) : (h.step o).Sound := by
  cases o with
  | reset => exact .idle rfl
  | push u =>
    change (h.push u.fragment).Sound
    unfold History.push
    rcases hs.push_cases u.fragment with ⟨callId, hbegins⟩ | ⟨callId, payload, hall⟩ |
      ⟨-, defect, hpush⟩
    · rw [hs.push_of_begins hbegins]
      exact .run hbegins
    · rw [hs.push_of_fragments hall]
      exact .idle rfl
    · rw [hpush]
      exact .idle rfl

/-- Run: it does so after any operations. -/
theorem sound_after (ops : List Operation) : (after ops).Sound :=
  List.foldlRecOn ops step (.idle rfl) fun _ hs o _ => hs.step o

/-- Step: a run starts anew or grows by what is pushed. -/
theorem run_step_suffix (h : History) (o : Operation) :
    (h.step o).run <:+ h.run ++ Operation.pushed [o] := by
  cases o with
  | reset => exact List.nil_suffix
  | push u =>
    change (h.push u.fragment).run <:+ h.run ++ [u.fragment]
    unfold History.push
    split
    · exact List.suffix_refl _
    · exact List.nil_suffix
    · exact List.nil_suffix

/-- Run: it is made of what it was and of what was pushed since. -/
theorem run_foldl_suffix (h : History) (ops : List Operation) :
    (ops.foldl step h).run <:+ h.run ++ Operation.pushed ops := by
  induction ops generalizing h with
  | nil => simp [Operation.pushed]
  | cons o ops ih =>
    obtain ⟨before, hbefore⟩ := run_step_suffix h o
    have hpushed : Operation.pushed (o :: ops) = Operation.pushed [o] ++ Operation.pushed ops :=
      List.filterMap_append (l := [o])
    refine (ih (h.step o)).trans ⟨before, ?_⟩
    rw [hpushed, ← List.append_assoc, hbefore, List.append_assoc]

/-- After an error nothing is left of what was pushed before. -/
theorem run_after_error {past : List Operation} {u : Carrier} {defect : ReassemblyDefect}
    (herror : ((after past).assembly.push u.fragment).1 = .error defect) (later : List Operation) :
    (after (past ++ .push u :: later)).run <:+ Operation.pushed later := by
  have hnil : ((after past).push u.fragment).run = [] := by
    unfold History.push
    split <;> simp_all
  have hsuffix := run_foldl_suffix ((after past).push u.fragment) later
  rw [hnil, List.nil_append] at hsuffix
  simpa [after, History.step] using hsuffix

end History

/-- **What an assembly gives.** A push brings out a payload exactly if its fragment completes, as
the last one, the run since the last reset, error or completed call, and the payload is what the
stubs of that run make up. It brings out nothing yet exactly if the run has begun well but is not
complete, and then it has gathered the stubs so far. Anything else is an error, after which the
assembly awaits the first fragment of a call, and no later payload is made of other fragments than
those pushed after the error. -/
theorem push_after (past : List Operation) (u : Carrier) :
    let h := History.after past
    let run := h.run ++ [u.fragment]
    (∀ payload, (h.assembly.push u.fragment).1 = .ok (some payload) ↔
      ∃ callId, Fragments callId true run payload) ∧
    ((h.assembly.push u.fragment).1 = .ok none ↔ ∃ callId, Begins callId run) ∧
    (∀ callId, Begins callId run →
      (h.assembly.push u.fragment).2 = .accumulating callId (run.flatMap (·.stub))) ∧
    ((∃ defect, h.assembly.push u.fragment = (.error defect, .awaitingFirst)) ↔
      ¬ (∃ callId, Begins callId run) ∧ ¬ ∃ callId payload, Fragments callId true run payload) ∧
    (∀ defect, (h.assembly.push u.fragment).1 = .error defect →
      ∀ (later : List Operation) (w : Carrier) (payload : List UInt8),
        ((History.after (past ++ .push u :: later)).assembly.push w.fragment).1
            = .ok (some payload) →
          ∃ since, since <:+ Operation.pushed later ∧
            payload = (since ++ [w.fragment]).flatMap (·.stub)) := by
  intro h run
  have hs : h.Sound := History.sound_after past
  refine ⟨fun _ => hs.push_eq_some_iff, hs.push_eq_none_iff, fun _ hbegins => ?_,
    hs.push_eq_error_iff, fun defect herror later w payload hpayload => ?_⟩
  · rw [hs.push_of_begins hbegins]
  · have hlater := History.sound_after (past ++ .push u :: later)
    obtain ⟨callId, hall⟩ := hlater.push_eq_some_iff.mp hpayload
    obtain ⟨-, -, hstubs⟩ := fragments_concat_iff.mp hall
    exact ⟨_, History.run_after_error herror later, hstubs⟩

/-- A fragment of a request with a hint that is far off. -/
def samplePush (callId : UInt32) (isFirst isLast : Bool) (stub : List UInt8) : Carrier :=
  .request (Request.ofSlice callId 0 0 none ⟨isFirst, isLast, 9999, stub⟩)

/-- Call 1 is abandoned because of a fragment of call 2. Nothing of either is in call 3. -/
theorem push_after_sampleFragments :
    ((History.after [.push (samplePush 1 true false [1])]).assembly.push
      (samplePush 2 false true [2]).fragment).1 = .error (.foreignCall 2 1) ∧
    ((History.after [.push (samplePush 1 true false [1]), .push (samplePush 2 false true [2]),
        .push (samplePush 3 true false [3])]).assembly.push
      (samplePush 3 false true [4]).fragment).1 = .ok (some [3, 4]) ∧
    ∃ since, since <:+ [(samplePush 3 true false [3]).fragment] ∧
      [3, 4] = (since ++ [(samplePush 3 false true [4]).fragment]).flatMap (·.stub) := by
  have herror : ((History.after [.push (samplePush 1 true false [1])]).assembly.push
      (samplePush 2 false true [2]).fragment).1 = .error (.foreignCall 2 1) := by decide
  have hpayload : ((History.after [.push (samplePush 1 true false [1]),
      .push (samplePush 2 false true [2]), .push (samplePush 3 true false [3])]).assembly.push
        (samplePush 3 false true [4]).fragment).1 = .ok (some [3, 4]) := by decide
  obtain ⟨-, -, -, -, hlater⟩ :=
    push_after [.push (samplePush 1 true false [1])] (samplePush 2 false true [2])
  exact ⟨herror, hpayload, hlater _ herror [.push (samplePush 3 true false [3])] _ _ hpayload⟩

end Assembly

end RemoteCall
