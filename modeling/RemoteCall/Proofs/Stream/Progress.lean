import RemoteCall.Endpoint
import RemoteCall.Proofs.Stream.Frames

/-! What comes of the units of a stream when an endpoint processes them one after the other, up to
the first that is an error. The stream can be cut anywhere and processed part by part
(`Frames.split_progress`). -/

namespace RemoteCall

/-- What comes of units that are processed in order: the units to send, whether there was an error,
and the state that is left. -/
structure Progress where
  answers : List (List UInt8)
  result : Except Error Unit
  endpoint : Endpoint
  groups : GroupAllocator

namespace Progress

/-- The progress when these units were sent before. -/
def after (answers : List (List UInt8)) (made : Progress) : Progress :=
  { made with answers := answers ++ made.answers }

/-- How a stream ends: at the first unit that is an error, or else as its framing does. -/
def ending (made : Progress) (framing : Except Error (List UInt8)) : Except Error (List UInt8) :=
  match made.result with
  | .ok () => framing
  | .error e => .error e

theorem ending_of_ok {made : Progress} (h : made.result = .ok ())
    (framing : Except Error (List UInt8)) : made.ending framing = framing := by
  unfold ending
  rw [h]

theorem ending_of_error {made : Progress} {e : Error} (h : made.result = .error e)
    (framing : Except Error (List UInt8)) : made.ending framing = .error e := by
  unfold ending
  rw [h]

theorem ending_eq_ok_iff {made : Progress} {framing : Except Error (List UInt8)}
    {tail : List UInt8} :
    made.ending framing = .ok tail ↔ made.result = .ok () ∧ framing = .ok tail := by
  unfold ending
  cases h : made.result with
  | ok => simp
  | error e => simp

end Progress

namespace Endpoint

/-- Processes units in order, up to the first that is an error. -/
def processAll (e : Endpoint) (g : GroupAllocator) : List (List UInt8) → Progress
  | [] => ⟨[], .ok (), e, g⟩
  | u :: us =>
    let t := e.process g u
    match t.answers with
    | .error err => ⟨[], .error err, t.endpoint, t.groups⟩
    | .ok answers => (processAll t.endpoint t.groups us).after answers

variable {e : Endpoint} {g : GroupAllocator} {u : List UInt8} {us : List (List UInt8)}
  {answers : List (List UInt8)} {err : Error}

theorem processAll_cons_of_ok (h : (e.process g u).answers = .ok answers) :
    e.processAll g (u :: us) =
      ((e.process g u).endpoint.processAll (e.process g u).groups us).after answers := by
  simp only [processAll, h]

theorem processAll_cons_of_error (h : (e.process g u).answers = .error err) :
    e.processAll g (u :: us) =
      ⟨[], .error err, (e.process g u).endpoint, (e.process g u).groups⟩ := by
  simp only [processAll, h]

/-- What follows an error is not looked at. -/
theorem processAll_append_of_error (h : (e.processAll g us).result = .error err)
    (vs : List (List UInt8)) : e.processAll g (us ++ vs) = e.processAll g us := by
  induction us generalizing e g with
  | nil => cases h
  | cons u us ih =>
    cases hanswers : (e.process g u).answers with
    | error err' =>
      rw [List.cons_append, processAll_cons_of_error hanswers, processAll_cons_of_error hanswers]
    | ok answers =>
      rw [processAll_cons_of_ok hanswers] at h
      rw [List.cons_append, processAll_cons_of_ok hanswers, processAll_cons_of_ok hanswers, ih h]

/-- Units can be processed in two runs. -/
theorem processAll_append_of_ok (h : (e.processAll g us).result = .ok ())
    (vs : List (List UInt8)) :
    e.processAll g (us ++ vs) =
      ((e.processAll g us).endpoint.processAll (e.processAll g us).groups vs).after
        (e.processAll g us).answers := by
  induction us generalizing e g with
  | nil => rfl
  | cons u us ih =>
    cases hanswers : (e.process g u).answers with
    | error err =>
      rw [processAll_cons_of_error hanswers] at h
      cases h
    | ok answers =>
      rw [processAll_cons_of_ok hanswers] at h
      rw [List.cons_append, processAll_cons_of_ok hanswers, processAll_cons_of_ok hanswers, ih h]
      simp only [Progress.after, List.append_assoc]

end Endpoint

/-- A stream that is cut in two: the first part decides how it ends, or else the second part is
framed and processed where the first one stopped. -/
theorem Frames.split_progress {a b : List UInt8} {us : List (List UInt8)}
    {framing : Except Error (List UInt8)} (h : Frames (a ++ b) us framing) (e : Endpoint)
    (g : GroupAllocator) :
    ∃ vs framing₁, Frames a vs framing₁ ∧
      ((∃ err, (e.processAll g vs).ending framing₁ = .error err ∧
          e.processAll g us = e.processAll g vs ∧ (e.processAll g us).ending framing = .error err) ∨
        ∃ tail ws, (e.processAll g vs).ending framing₁ = .ok tail ∧ Frames (tail ++ b) ws framing ∧
          e.processAll g us =
            ((e.processAll g vs).endpoint.processAll (e.processAll g vs).groups ws).after
              (e.processAll g vs).answers) := by
  rcases h.split with ⟨err, rfl, ha⟩ | ⟨tail, vs, ws, rfl, ha, htail⟩
  · refine ⟨us, .error err, ha, .inl ?_⟩
    cases hresult : (e.processAll g us).result with
    | ok =>
      have hending := Progress.ending_of_ok hresult (.error err)
      exact ⟨err, hending, rfl, hending⟩
    | error err' =>
      have hending := Progress.ending_of_error hresult (.error err)
      exact ⟨err', hending, rfl, hending⟩
  · refine ⟨vs, .ok tail, ha, ?_⟩
    cases hresult : (e.processAll g vs).result with
    | ok =>
      refine .inr ⟨tail, ws, Progress.ending_of_ok hresult _, htail, ?_⟩
      exact Endpoint.processAll_append_of_ok hresult ws
    | error err =>
      have hsame := Endpoint.processAll_append_of_error hresult ws
      refine .inl ⟨err, Progress.ending_of_error hresult _, hsame, ?_⟩
      rw [hsame]
      exact Progress.ending_of_error hresult _

end RemoteCall
