import RemoteCall.Proofs.Stream.Progress
import RemoteCall.Stream.Basic

/-! Reads from a stream. In whatever pieces its bytes arrive, the reads give its units in order and
then tell how it ends (`Stream.readAll_frames`), and an endpoint that processes one unit after each
read processes the units of the stream (`Endpoint.serve_frames`). -/

namespace RemoteCall

namespace Stream

variable {ρ : Type}

/-- All bytes that are still to come out. -/
def content (s : Stream ρ) : List UInt8 := s.buffer ++ s.arriving.flatten

/-- How the reads of a stream end, by how its framing ends: with nothing after the last unit, with
the start of one more, or with a header that is malformed. -/
def closing : Except Error (List UInt8) → Except Error Unit
  | .ok [] => .ok ()
  | .ok (_ :: _) => .error .connectionClosed
  | .error e => .error e

/-- The same as the result of a read. -/
def lastRead (framing : Except Error (List UInt8)) : Except Error (Option (List UInt8)) :=
  (closing framing).map fun _ => none

variable [Intake ρ] {s s' : Stream ρ}

/-! ## One read -/

theorem atEnd_eq (tail : List UInt8) : atEnd tail = lastRead (.ok tail) := by
  cases tail <;> rfl

theorem flatten_remaining (piece : List UInt8) (pieces : List (List UInt8)) :
    (remaining piece pieces).flatten = piece ++ pieces.flatten := by
  unfold remaining
  split
  · simp_all
  · simp

theorem content_pull (h : s.pull = some s') : s'.content = s.content := by
  unfold pull at h
  split at h
  · rename_i harriving
    obtain rfl := by simpa using h
    simp only [content, harriving, flatten_remaining, List.flatten_cons, ← List.append_assoc,
      List.append_cancel_right_eq]
    rw [List.append_assoc, List.take_append_drop]
  · cases h

/-- Only pieces that hold something are put back. -/
theorem nil_notMem_pull (h : s.pull = some s') (hpieces : [] ∉ s.arriving) : [] ∉ s'.arriving := by
  unfold pull at h
  split at h
  · rename_i harriving
    rw [harriving, List.mem_cons, not_or] at hpieces
    obtain rfl := by simpa using h
    dsimp only
    unfold remaining
    split
    · exact hpieces.2
    · rename_i hempty
      rw [List.mem_cons, not_or]
      refine ⟨?_, hpieces.2⟩
      intro hnil
      rw [← hnil] at hempty
      exact hempty rfl
  · cases h

theorem arriving_of_pull_eq_none (h : s.pull = none) (hpieces : [] ∉ s.arriving) :
    s.arriving = [] := by
  unfold pull at h
  cases harriving : s.arriving with
  | nil => rfl
  | cons piece pieces =>
    rw [harriving] at h hpieces
    cases piece with
    | nil => exact absurd List.mem_cons_self hpieces
    | cons => cases h

theorem read_of_unit {u rest : List UInt8} (h : front s.buffer = .unit u rest) :
    s.read = (.ok (some u), { s with buffer := rest, room := Intake.cut s.room u.length }) := by
  rw [read]
  split
  case h_1 heq =>
    rw [h] at heq
    cases heq
    rfl
  all_goals simp_all only [reduceCtorEq]

theorem read_of_malformed {e : Error} (h : (front s.buffer).error? = some e) :
    s.read = (.error e, s) := by
  rw [read]
  split
  case h_1 heq =>
    rw [heq] at h
    cases h
  case h_2 heq =>
    rw [heq] at h
    cases h
    rfl
  case h_3 heq =>
    rw [heq] at h
    cases h
    rfl
  case h_4 heq =>
    rw [heq] at h
    cases h

theorem read_of_pull (h : front s.buffer = .incomplete) (hpull : s.pull = some s') :
    s.read = s'.read := by
  rw [read]
  split
  case h_4 =>
    split
    · simp_all only [Option.some.injEq]
    · simp_all only [reduceCtorEq]
  all_goals simp_all only [reduceCtorEq]

theorem read_of_pull_eq_none (h : front s.buffer = .incomplete) (hpull : s.pull = none) :
    s.read = (atEnd s.buffer, s) := by
  rw [read]
  split
  case h_4 =>
    split
    · simp_all only [reduceCtorEq]
    · rfl
  all_goals simp_all only [reduceCtorEq]

/-- A read gives the first unit of the stream, or tells how the stream ends. -/
theorem read_frames {us : List (List UInt8)} {framing : Except Error (List UInt8)}
    (hpieces : [] ∉ s.arriving) (h : Frames s.content us framing) :
    (∀ u vs, us = u :: vs → ∃ s', s.read = (.ok (some u), s') ∧ [] ∉ s'.arriving ∧
        Frames s'.content vs framing) ∧
      (us = [] → ∃ s', s.read = (lastRead framing, s')) := by
  induction hn : s.ahead using Nat.strongRecOn generalizing s with
  | ind n ih =>
    cases hfront : front s.buffer with
    | unit u rest =>
      obtain ⟨hbuffer, hu⟩ := front_eq_unit_iff.mp hfront
      have hcontent : s.content = u ++ (rest ++ s.arriving.flatten) := by
        rw [content, hbuffer, List.append_assoc]
      obtain ⟨vs, rfl, hrest⟩ := h.of_front_unit (front_eq_unit_iff.mpr ⟨hcontent, hu⟩)
      refine ⟨?_, nofun⟩
      rintro _ _ ⟨⟩
      exact ⟨_, read_of_unit hfront, hpieces, hrest⟩
    | incomplete =>
      cases hpull : s.pull with
      | none =>
        have hcontent : s.content = s.buffer := by
          rw [content, arriving_of_pull_eq_none hpull hpieces, List.flatten_nil, List.append_nil]
        rw [hcontent] at h
        obtain ⟨rfl, rfl⟩ := h.of_front_incomplete hfront
        refine ⟨nofun, fun _ => ⟨s, ?_⟩⟩
        rw [read_of_pull_eq_none hfront hpull, atEnd_eq]
      | some s' =>
        have hlt : s'.ahead < n := hn ▸ ahead_pull_lt hpull
        rw [read_of_pull hfront hpull]
        rw [← content_pull hpull] at h
        exact ih s'.ahead hlt (nil_notMem_pull hpull hpieces) h rfl
    | badLabel e =>
      have herror : (front s.buffer).error? = some e := by rw [hfront]; rfl
      have hmalformed := (front_error?_eq_some_iff.mp herror).append s.arriving.flatten
      obtain ⟨rfl, rfl⟩ := h.of_front_error hmalformed.front
      exact ⟨nofun, fun _ => ⟨s, read_of_malformed herror⟩⟩
    | tooShort m =>
      have herror : (front s.buffer).error? = some (Front.tooShortError m) := by rw [hfront]; rfl
      have hmalformed := (front_error?_eq_some_iff.mp herror).append s.arriving.flatten
      obtain ⟨rfl, rfl⟩ := h.of_front_error hmalformed.front
      exact ⟨nofun, fun _ => ⟨s, read_of_malformed herror⟩⟩

/-! ## All reads -/

theorem readAll_of_unit {u : List UInt8} (h : s.read = (.ok (some u), s')) :
    s.readAll = (u :: s'.readAll.1, s'.readAll.2) := by
  rw [readAll]
  split
  case h_1 heq =>
    rw [h] at heq
    cases heq
    rfl
  all_goals simp_all only [Prod.mk.injEq, Except.ok.injEq, reduceCtorEq, false_and]

theorem readAll_of_last {framing : Except Error (List UInt8)}
    (h : s.read = (lastRead framing, s')) : s.readAll = ([], closing framing, s') := by
  rw [readAll]
  unfold lastRead at h
  cases hclosing : closing framing with
  | ok =>
    rw [hclosing] at h
    split
    case h_2 heq =>
      rw [h] at heq
      cases heq
      rfl
    all_goals simp_all only [Prod.mk.injEq, Except.map, Except.ok.injEq, reduceCtorEq, false_and]
  | error e =>
    rw [hclosing] at h
    split
    case h_3 heq =>
      rw [h] at heq
      cases heq
      rfl
    all_goals simp_all only [Prod.mk.injEq, Except.map, reduceCtorEq, false_and]

/-- Run: the reads give the units of the stream, and then how it ends. -/
theorem readAll_frames {us : List (List UInt8)} {framing : Except Error (List UInt8)}
    (hpieces : [] ∉ s.arriving) (h : Frames s.content us framing) :
    s.readAll.1 = us ∧ s.readAll.2.1 = closing framing := by
  induction us generalizing s with
  | nil =>
    obtain ⟨s', hread⟩ := (read_frames hpieces h).2 rfl
    rw [readAll_of_last hread]
    exact ⟨rfl, rfl⟩
  | cons u us ih =>
    obtain ⟨s', hread, hpieces', hrest⟩ := (read_frames hpieces h).1 u us rfl
    obtain ⟨hus, hclosing⟩ := ih hpieces' hrest
    rw [readAll_of_unit hread]
    exact ⟨congrArg (u :: ·) hus, hclosing⟩

end Stream

/-! ## Processing what is read -/

namespace Endpoint

variable {ρ : Type} [Intake ρ]

/-- Reads a stream unit by unit, each of which is processed before the next one is read. -/
def serve (e : Endpoint) (g : GroupAllocator) (s : Stream ρ) : Progress :=
  match _h : s.read with
  | (.ok (some u), rest) =>
    let t := e.process g u
    match t.answers with
    | .error err => ⟨[], .error err, t.endpoint, t.groups⟩
    | .ok answers => (serve t.endpoint t.groups rest).after answers
  | (.ok none, _) => ⟨[], .ok (), e, g⟩
  | (.error err, _) => ⟨[], .error err, e, g⟩
termination_by s.size
decreasing_by exact Stream.size_read_lt _h

variable {e : Endpoint} {g : GroupAllocator} {s s' : Stream ρ}

theorem serve_of_unit {u : List UInt8} (h : s.read = (.ok (some u), s')) :
    e.serve g s = match (e.process g u).answers with
      | .error err => ⟨[], .error err, (e.process g u).endpoint, (e.process g u).groups⟩
      | .ok answers =>
        (serve (e.process g u).endpoint (e.process g u).groups s').after answers := by
  rw [serve]
  split
  case h_1 heq =>
    rw [h] at heq
    cases heq
    rfl
  all_goals simp_all only [Prod.mk.injEq, Except.ok.injEq, reduceCtorEq, false_and]

theorem serve_of_last {framing : Except Error (List UInt8)}
    (h : s.read = (Stream.lastRead framing, s')) :
    e.serve g s = ⟨[], Stream.closing framing, e, g⟩ := by
  rw [serve]
  unfold Stream.lastRead at h
  cases hclosing : Stream.closing framing with
  | ok =>
    rw [hclosing] at h
    split
    case h_2 => rfl
    all_goals simp_all only [Prod.mk.injEq, Except.map, Except.ok.injEq, reduceCtorEq, false_and]
  | error err =>
    rw [hclosing] at h
    split
    case h_3 heq =>
      rw [h] at heq
      cases heq
      rfl
    all_goals simp_all only [Prod.mk.injEq, Except.map, reduceCtorEq, false_and]

/-- Run: the units of the stream are processed, up to the first error. -/
theorem serve_frames {us : List (List UInt8)} {framing : Except Error (List UInt8)}
    (hpieces : [] ∉ s.arriving) (h : Frames s.content us framing) :
    e.serve g s = { e.processAll g us with
      result := Stream.closing ((e.processAll g us).ending framing) } := by
  induction us generalizing e g s with
  | nil =>
    obtain ⟨s', hread⟩ := (Stream.read_frames hpieces h).2 rfl
    exact serve_of_last hread
  | cons u us ih =>
    obtain ⟨s', hread, hpieces', hrest⟩ := (Stream.read_frames hpieces h).1 u us rfl
    rw [serve_of_unit hread]
    cases hanswers : (e.process g u).answers with
    | error err =>
      rw [processAll_cons_of_error hanswers]
      rfl
    | ok answers =>
      rw [processAll_cons_of_ok hanswers]
      dsimp only
      rw [ih hpieces' hrest]
      rfl

end Endpoint

end RemoteCall
