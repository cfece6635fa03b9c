import Mathlib.Data.List.Induction
import RemoteCall.Endpoint
import RemoteCall.Proofs.Assembly

/-! What an endpoint's assembly holds, told from the units that arrived so far and not from its
state: there is a call in progress exactly when the latest run of fragments is still open, and what
has been gathered are the stubs of that run. -/

namespace RemoteCall

/-- What a unit is to the call in progress. -/
inductive Event
  /-- A fragment. -/
  | request (r : Request)
  /-- A bind or an orphaned unit. -/
  | reset
  /-- Anything else, what cannot be decoded included. -/
  | inert

namespace Event

/-- A unit of another major version is nothing to the call in progress, whatever it is. -/
def of (data : List UInt8) : Event :=
  match Pdu.decode data with
  | .ok (.request r) => if r.header.major = Header.version then request r else inert
  | .ok (.bind p) => if p.header.major = Header.version then reset else inert
  | .ok (.other h _) =>
    if h.major = Header.version ∧ h.kind = .orphaned then reset else inert
  | _ => inert

/-- What the event adds to the call in progress. -/
def stub : Event → List UInt8
  | request r => r.stub
  | _ => []

/-- The event leaves a call open: it is one more fragment of that call, neither the first nor the
last one, or nothing to it. -/
def Continues (callId : UInt32) : Event → Prop
  | request r =>
    r.header.callId = callId ∧ r.header.flags.isFirst = false ∧ r.header.flags.isLast = false
  | reset => False
  | inert => True

/-- The assembly after the event. -/
def advance (a : Assembly) : Event → Assembly
  | request r => (a.push r.fragment).2
  | reset => .awaitingFirst
  | inert => a

theorem of_eq_request_iff {data : List UInt8} {r : Request} :
    of data = request r ↔ Pdu.decode data = .ok (.request r) ∧ r.header.major = Header.version := by
  unfold of
  constructor
  · intro h
    split at h <;> try split at h
    all_goals cases h
    rename_i hdecode hmajor
    exact ⟨hdecode, hmajor⟩
  · rintro ⟨hdecode, hmajor⟩
    simp only [hdecode, hmajor, if_true]

theorem of_eq_reset_iff {data : List UInt8} :
    of data = reset ↔
      (∃ p, Pdu.decode data = .ok (.bind p) ∧ p.header.major = Header.version) ∨
      ∃ h body, Pdu.decode data = .ok (.other h body) ∧ h.major = Header.version ∧
        h.kind = .orphaned := by
  unfold of
  constructor
  · intro h
    split at h <;> try split at h
    all_goals cases h
    · rename_i p hdecode hmajor
      exact .inl ⟨p, hdecode, hmajor⟩
    · rename_i h body hdecode hmajor
      exact .inr ⟨h, body, hdecode, hmajor⟩
  · rintro (⟨p, hdecode, hmajor⟩ | ⟨h, body, hdecode, hmajor⟩)
    · simp only [hdecode, hmajor, if_true]
    · simp only [hdecode, hmajor, and_self, if_true]

end Event

/-! ## Runs of fragments -/

/-- No call is in progress after these events: whatever fragment started the latest call, what came
after it has ended that call. -/
def Idle (past : List Event) : Prop :=
  ∀ before, (_h : before.length < past.length) → ∀ first run,
    past = before ++ .request first :: run → Idle before →
    first.header.flags.isFirst = true → first.header.flags.isLast = false →
    ¬ ∀ e ∈ run, e.Continues first.header.callId
termination_by past.length

/-- The latest events are a run of fragments that has not ended yet. It was started by `first`, at a
time when no call was in progress. -/
structure OpenRun (past before : List Event) (first : Request) (run : List Event) : Prop where
  split : past = before ++ .request first :: run
  idle : Idle before
  isFirst : first.header.flags.isFirst = true
  notLast : first.header.flags.isLast = false
  continues : ∀ e ∈ run, e.Continues first.header.callId

/-- A request ends a call, and the stubs of the call are `stub`: the request is all of the call, or
it is the last fragment of the run that is open. -/
inductive Completes (past : List Event) (r : Request) : List UInt8 → Prop
  | whole (idle : Idle past) (isFirst : r.header.flags.isFirst = true)
      (isLast : r.header.flags.isLast = true) : Completes past r r.stub
  | last {before : List Event} {first : Request} {run : List Event}
      (isOpen : OpenRun past before first run) (sameCall : r.header.callId = first.header.callId)
      (notFirst : r.header.flags.isFirst = false) (isLast : r.header.flags.isLast = true) :
      Completes past r (first.stub ++ run.flatMap Event.stub ++ r.stub)

section Runs

variable {past before : List Event} {first : Request} {run : List Event} {e : Event}

theorem idle_iff : Idle past ↔ ∀ before first run, ¬ OpenRun past before first run := by
  rw [Idle]
  constructor
  · intro h before first run ⟨hsplit, hidle, hfirst, hlast, hrun⟩
    refine h before ?_ first run hsplit hidle hfirst hlast hrun
    rw [hsplit, List.length_append, List.length_cons]
    omega
  · intro h before _ first run hsplit hidle hfirst hlast hrun
    exact h before first run ⟨hsplit, hidle, hfirst, hlast, hrun⟩

theorem idle_nil : Idle [] := by
  rw [idle_iff]
  rintro before first run ⟨hsplit, -⟩
  cases before <;> cases hsplit

/-- One more event opens a run or prolongs the one that is open. -/
theorem openRun_concat_iff : OpenRun (past ++ [e]) before first run ↔
    (run = [] ∧ before = past ∧ e = .request first ∧ Idle past ∧
      first.header.flags.isFirst = true ∧ first.header.flags.isLast = false) ∨
    ∃ run', run = run' ++ [e] ∧ OpenRun past before first run' ∧
      e.Continues first.header.callId := by
  constructor
  · rintro ⟨hsplit, hidle, hfirst, hlast, hrun⟩
    rcases List.eq_nil_or_concat run with rfl | ⟨run', e', rfl⟩
    · obtain ⟨rfl, he⟩ := List.append_inj' hsplit rfl
      cases he
      exact .inl ⟨rfl, rfl, rfl, hidle, hfirst, hlast⟩
    · rw [List.concat_eq_append] at hsplit hrun ⊢
      rw [← List.cons_append, ← List.append_assoc] at hsplit
      obtain ⟨rfl, he⟩ := List.append_inj' hsplit rfl
      cases he
      have hinit : ∀ x ∈ run', x.Continues first.header.callId := by
        intro x hx
        exact hrun x (List.mem_append_left _ hx)
      have he : e.Continues first.header.callId :=
        hrun e (List.mem_append_right _ (List.mem_singleton_self e))
      exact .inr ⟨run', rfl, ⟨rfl, hidle, hfirst, hlast, hinit⟩, he⟩
  · rintro (⟨rfl, rfl, rfl, hidle, hfirst, hlast⟩ | ⟨run', rfl, hopen, he⟩)
    · refine ⟨rfl, hidle, hfirst, hlast, ?_⟩
      intro x hx
      cases hx
    · refine ⟨?_, hopen.idle, hopen.isFirst, hopen.notLast, ?_⟩
      · rw [hopen.split, List.append_assoc, List.cons_append]
      · intro x hx
        rcases List.mem_append.mp hx with hx | hx
        · exact hopen.continues x hx
        · cases List.mem_singleton.mp hx
          exact he

/-- The first fragment of an open run is the latest first fragment of all. -/
theorem OpenRun.unique {before' : List Event} {first' : Request} {run' : List Event}
    (h : OpenRun past before first run) (h' : OpenRun past before' first' run') :
    before = before' ∧ first = first' ∧ run = run' := by
  induction past using List.reverseRecOn generalizing run run' with
  | nil => exact absurd h (idle_iff.mp idle_nil _ _ _)
  | append_singleton past e ih =>
    rcases openRun_concat_iff.mp h with ⟨rfl, rfl, rfl, -, hfirst, -⟩ | ⟨run, rfl, hopen, he⟩
    · rcases openRun_concat_iff.mp h' with ⟨rfl, rfl, he', -⟩ | ⟨run', rfl, -, -, hnot, -⟩
      · cases he'
        exact ⟨rfl, rfl, rfl⟩
      · rw [hfirst] at hnot
        cases hnot
    · rcases openRun_concat_iff.mp h' with ⟨rfl, rfl, rfl, -, hfirst, -⟩ | ⟨run', rfl, hopen', -⟩
      · obtain ⟨-, hnot, -⟩ := he
        rw [hfirst] at hnot
        cases hnot
      · obtain ⟨rfl, rfl, rfl⟩ := ih hopen hopen'
        exact ⟨rfl, rfl, rfl⟩

/-! ## What the assembly holds -/

/-- The assembly holds what the history says. -/
inductive Tracks (past : List Event) (a : Assembly) : Prop
  | idle (hpast : Idle past) (ha : a.inProgress = false) : Tracks past a
  | run {before : List Event} {first : Request} {run : List Event}
      (hopen : OpenRun past before first run)
      (ha : a = .accumulating first.header.callId (first.stub ++ run.flatMap Event.stub)) :
      Tracks past a

/-- An event that neither opens a run nor continues one leaves no call in progress. -/
theorem idle_concat (hopens : ∀ r, e = .request r → Idle past →
      r.header.flags.isFirst = true → r.header.flags.isLast = false → False)
    (hcontinues : ∀ before first run, OpenRun past before first run →
      ¬ e.Continues first.header.callId) : Idle (past ++ [e]) := by
  rw [idle_iff]
  intro before first run h
  rcases openRun_concat_iff.mp h with ⟨-, -, he, hidle, hfirst, hlast⟩ | ⟨run', -, hopen, he⟩
  · exact hopens first he hidle hfirst hlast
  · exact hcontinues before first run' hopen he

variable {a : Assembly} {r : Request}

/-- A fragment when no call is in progress. -/
theorem Tracks.request_of_idle (hpast : Idle past) (ha : a.inProgress = false) :
    Tracks (past ++ [.request r]) (a.push r.fragment).2 := by
  have hnone : ∀ before first run, ¬ OpenRun past before first run := idle_iff.mp hpast
  by_cases haccepts : a.Accepts r.fragment
  · have hfirst : r.header.flags.isFirst = true := (Assembly.accepts_iff_of_idle ha).mp haccepts
    cases hlast : r.header.flags.isLast with
    | true =>
      rw [Assembly.push_of_last haccepts hlast]
      refine .idle (idle_concat ?_ ?_) rfl
      · rintro r' ⟨⟩ - - hlast'
        rw [hlast] at hlast'
        cases hlast'
      · intro before first run hopen
        exact absurd hopen (hnone before first run)
    | false =>
      rw [Assembly.push_of_not_last haccepts hlast, Assembly.gathered_of_idle ha]
      refine .run (openRun_concat_iff.mpr (.inl ⟨rfl, rfl, rfl, hpast, hfirst, hlast⟩)) ?_
      rw [List.flatMap_nil, List.append_nil, List.nil_append]
      rfl
  · obtain ⟨defect, hpush⟩ := Assembly.push_of_not_accepts haccepts
    rw [hpush]
    refine .idle (idle_concat ?_ ?_) rfl
    · rintro r' ⟨⟩ - hfirst' -
      exact haccepts ((Assembly.accepts_iff_of_idle ha).mpr hfirst')
    · intro before first run hopen
      exact absurd hopen (hnone before first run)

/-- A fragment while a call is in progress. -/
theorem Tracks.request_of_openRun (hopen : OpenRun past before first run)
    (ha : a = .accumulating first.header.callId (first.stub ++ run.flatMap Event.stub)) :
    Tracks (past ++ [.request r]) (a.push r.fragment).2 := by
  have hbusy : ¬ Idle past := by
    intro hidle
    exact idle_iff.mp hidle _ _ _ hopen
  by_cases haccepts : a.Accepts r.fragment
  · have hplace : r.header.callId = first.header.callId ∧ r.header.flags.isFirst = false := by
      rw [ha] at haccepts
      exact haccepts
    cases hlast : r.header.flags.isLast with
    | true =>
      rw [Assembly.push_of_last haccepts hlast]
      refine .idle (idle_concat ?_ ?_) rfl
      · intro r' _ hidle
        exact absurd hidle hbusy
      · rintro before' first' run' - ⟨-, -, hlast'⟩
        rw [hlast] at hlast'
        cases hlast'
    | false =>
      rw [Assembly.push_of_not_last haccepts hlast, ha]
      refine .run (openRun_concat_iff.mpr (.inr ⟨run, rfl, hopen, hplace.1, hplace.2, hlast⟩)) ?_
      simp only [Assembly.gathered, Request.fragment, hplace.1, List.flatMap_append,
        List.flatMap_cons, List.flatMap_nil, List.append_nil, List.append_assoc, Event.stub]
  · obtain ⟨defect, hpush⟩ := Assembly.push_of_not_accepts haccepts
    rw [hpush]
    refine .idle (idle_concat ?_ ?_) rfl
    · intro r' _ hidle
      exact absurd hidle hbusy
    · rintro before' first' run' hopen' ⟨hid, hfirst, -⟩
      obtain ⟨-, rfl, -⟩ := hopen.unique hopen'
      rw [ha] at haccepts
      exact haccepts ⟨hid, hfirst⟩

/-- One step: the assembly and the history advance together. -/
theorem Tracks.advance (h : Tracks past a) : Tracks (past ++ [e]) (e.advance a) := by
  cases e with
  | request r =>
    cases h with
    | idle hpast ha => exact Tracks.request_of_idle hpast ha
    | run hopen ha => exact Tracks.request_of_openRun hopen ha
  | reset =>
    refine .idle (idle_concat ?_ ?_) rfl
    · intro r hr
      cases hr
    · intro before first run _ hcontinues
      exact hcontinues
  | inert =>
    cases h with
    | idle hpast ha =>
      refine .idle (idle_concat ?_ ?_) ha
      · intro r hr
        cases hr
      · intro before first run hopen
        exact absurd hopen (idle_iff.mp hpast before first run)
    | run hopen ha =>
      refine .run (openRun_concat_iff.mpr (.inr ⟨_, rfl, hopen, trivial⟩)) ?_
      simp only [Event.advance, ha, List.flatMap_append, List.flatMap_cons, List.flatMap_nil,
        List.append_nil, Event.stub]

/-- What the assembly brings out is what the history says the call has brought. -/
theorem Tracks.push_eq_some_iff (h : Tracks past a) {stub : List UInt8} :
    (a.push r.fragment).1 = .ok (some stub) ↔ Completes past r stub := by
  rw [Assembly.push_eq_some_iff]
  cases h with
  | idle hpast ha =>
    rw [Assembly.accepts_iff_of_idle ha, Assembly.gathered_of_idle ha, List.nil_append]
    constructor
    · rintro ⟨hfirst, hlast, rfl⟩
      exact .whole hpast hfirst hlast
    · intro hcompletes
      cases hcompletes with
      | whole _ hfirst hlast => exact ⟨hfirst, hlast, rfl⟩
      | last hopen => exact absurd hopen (idle_iff.mp hpast _ _ _)
  | run hopen ha =>
    rw [ha]
    constructor
    · rintro ⟨⟨hid, hfirst⟩, hlast, rfl⟩
      exact .last hopen hid hfirst hlast
    · intro hcompletes
      cases hcompletes with
      | whole hidle => exact absurd hopen (idle_iff.mp hidle _ _ _)
      | last hopen' hid hfirst hlast =>
        obtain ⟨-, rfl, rfl⟩ := hopen.unique hopen'
        exact ⟨⟨hid, hfirst⟩, hlast, rfl⟩

end Runs

end RemoteCall
