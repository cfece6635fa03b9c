import RemoteCall.Assembly

/-! What an assembly does with a fragment depends on one question only: whether the fragment is the
next one of the call in progress or, between two calls, the first one of a call. -/

namespace RemoteCall.Assembly

/-- The fragment is the next one of the call in progress, or starts a call when there is none. -/
def Accepts (a : Assembly) (f : Fragment) : Prop :=
  match a with
  | accumulating callId _ => f.callId = callId ∧ f.flags.isFirst = false
  | _ => f.flags.isFirst = true

/-- What the call in progress has brought so far. -/
def gathered : Assembly → List UInt8
  | accumulating _ received => received
  | _ => []

@[simp] theorem gathered_accumulating (callId : UInt32) (received : List UInt8) :
    (accumulating callId received).gathered = received := rfl

variable {a : Assembly} {f : Fragment}

theorem accepts_iff_of_idle (ha : a.inProgress = false) :
    a.Accepts f ↔ f.flags.isFirst = true := by
  cases a with
  | accumulating callId received => cases ha
  | awaitingFirst => exact Iff.rfl
  | complete callId => exact Iff.rfl

theorem gathered_of_idle (ha : a.inProgress = false) : a.gathered = [] := by
  cases a with
  | accumulating callId received => cases ha
  | awaitingFirst => rfl
  | complete callId => rfl

theorem push_of_accepts (h : a.Accepts f) :
    a.push f =
      (.ok (proceed f (a.gathered ++ f.stub)).1, (proceed f (a.gathered ++ f.stub)).2) := by
  cases a with
  | accumulating callId received =>
    obtain ⟨hid, hfirst⟩ := h
    simp only [push, hid, hfirst, bne_self_eq_false, Bool.false_eq_true, if_false, gathered]
  | awaitingFirst =>
    have hfirst : f.flags.isFirst = true := h
    simp only [push, hfirst, if_true, gathered, List.nil_append]
  | complete callId =>
    have hfirst : f.flags.isFirst = true := h
    simp only [push, hfirst, if_true, gathered, List.nil_append]

/-- A fragment that is out of place ends the call in progress and starts none. -/
theorem push_of_not_accepts (h : ¬ a.Accepts f) :
    ∃ defect, a.push f = (.error defect, awaitingFirst) := by
  cases a with
  | accumulating callId received =>
    by_cases hid : f.callId = callId
    · have hfirst : f.flags.isFirst = true := by
        cases hf : f.flags.isFirst with
        | false => exact absurd ⟨hid, hf⟩ h
        | true => rfl
      refine ⟨.restarted callId, ?_⟩
      simp only [push, hid, hfirst, bne_self_eq_false, Bool.false_eq_true, if_false, if_true]
    · refine ⟨.foreignCall f.callId callId, ?_⟩
      simp only [push, bne_iff_ne.mpr hid, if_true]
  | awaitingFirst =>
    refine ⟨.noFirst f.callId, ?_⟩
    have hfirst : ¬ f.flags.isFirst = true := h
    simp only [push, hfirst, if_false, Bool.false_eq_true]
  | complete callId =>
    refine ⟨.noFirst f.callId, ?_⟩
    have hfirst : ¬ f.flags.isFirst = true := h
    simp only [push, hfirst, if_false, Bool.false_eq_true]

/-- The last fragment brings out the whole payload and leaves no call in progress. -/
theorem push_of_last (h : a.Accepts f) (hlast : f.flags.isLast = true) :
    a.push f = (.ok (some (a.gathered ++ f.stub)), complete f.callId) := by
  rw [push_of_accepts h, proceed, if_pos hlast]

/-- A fragment that is not the last one is kept. -/
theorem push_of_not_last (h : a.Accepts f) (hlast : f.flags.isLast = false) :
    a.push f = (.ok none, accumulating f.callId (a.gathered ++ f.stub)) := by
  rw [push_of_accepts h, proceed, hlast, if_neg Bool.false_ne_true]

/-- A payload comes out only with the last fragment of a call that it completes. -/
theorem push_eq_some_iff {payload : List UInt8} :
    (a.push f).1 = .ok (some payload) ↔
      a.Accepts f ∧ f.flags.isLast = true ∧ payload = a.gathered ++ f.stub := by
  by_cases h : a.Accepts f
  · cases hlast : f.flags.isLast with
    | true =>
      rw [push_of_last h hlast]
      simp only [Except.ok.injEq, Option.some.injEq, h, true_and]
      exact eq_comm
    | false =>
      rw [push_of_not_last h hlast]
      simp only [Except.ok.injEq, reduceCtorEq, Bool.false_eq_true, false_and, and_false]
  · obtain ⟨defect, hpush⟩ := push_of_not_accepts h
    rw [hpush]
    simp only [reduceCtorEq, h, false_and]

end RemoteCall.Assembly
