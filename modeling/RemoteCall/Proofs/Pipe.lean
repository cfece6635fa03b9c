import RemoteCall.Proofs.Pdu.Written
import RemoteCall.Proofs.Stream.Frames
import RemoteCall.Transport.Pipe

/-! Whole units through a pipe: each write of one unit has it processed, with nothing left over, and
the answers are read back unit by unit. -/

namespace RemoteCall

variable {u : Pdu} {b : List UInt8}

namespace Pipe

/-- The pipe after a turn of its endpoint, with the answers in the queue. -/
def answered (p : Pipe) (t : Turn) (answers : List (List UInt8)) : Pipe :=
  { p with endpoint := t.endpoint, outbound := p.outbound ++ answers.flatten }

variable {p : Pipe} {g : GroupAllocator}

/-! What a pipe does next depends on the front of what came in. -/

theorem drain_of_incomplete (h : front p.inbound = .incomplete) : p.drain g = (.ok (), p, g) := by
  rw [drain]
  split
  · rfl
  all_goals simp_all only [reduceCtorEq]

theorem drain_of_badLabel {err : Error} (h : front p.inbound = .badLabel err) :
    p.drain g = (.error err, p, g) := by
  rw [drain]
  split
  case h_2 heq =>
    rw [h] at heq
    cases heq
    rfl
  all_goals simp_all only [reduceCtorEq]

theorem drain_of_tooShort {n : Nat} (h : front p.inbound = .tooShort n) :
    p.drain g = (.error (Front.tooShortError n), { p with inbound := [] }, g) := by
  rw [drain]
  split
  case h_3 heq =>
    rw [h] at heq
    cases heq
    rfl
  all_goals simp_all only [reduceCtorEq]

theorem drain_of_malformed {err : Error} (h : (front p.inbound).error? = some err) :
    ∃ inbound, p.drain g = (.error err, { p with inbound }, g) := by
  cases hfront : front p.inbound with
  | badLabel e =>
    rw [hfront] at h
    cases h
    exact ⟨p.inbound, drain_of_badLabel hfront⟩
  | tooShort n =>
    rw [hfront] at h
    cases h
    exact ⟨[], drain_of_tooShort hfront⟩
  | incomplete =>
    rw [hfront] at h
    cases h
  | unit u rest =>
    rw [hfront] at h
    cases h

theorem drain_of_unit {u rest : List UInt8} (h : front p.inbound = .unit u rest)
    {answers : List (List UInt8)} (hanswers : (p.endpoint.process g u).answers = .ok answers) :
    p.drain g = ({ p.answered (p.endpoint.process g u) answers with inbound := rest } : Pipe).drain
      (p.endpoint.process g u).groups := by
  rw [drain]
  split
  case h_4 heq =>
    rw [h] at heq
    cases heq
    dsimp only
    rw [hanswers]
    rfl
  all_goals simp_all only [reduceCtorEq]

theorem drain_of_unit_error {u rest : List UInt8} (h : front p.inbound = .unit u rest)
    {err : Error} (herror : (p.endpoint.process g u).answers = .error err) :
    p.drain g = (.error err, { p.answered (p.endpoint.process g u) [] with inbound := rest },
      (p.endpoint.process g u).groups) := by
  rw [drain]
  split
  case h_4 heq =>
    rw [h] at heq
    cases heq
    dsimp only
    rw [herror]
    simp only [answered, List.flatten_nil, List.append_nil]
  all_goals simp_all only [reduceCtorEq]

theorem write_of_drain (hb : u.Written b) (hsize : 65536 ≤ p.maxMessageSize)
    {result : Except Error Unit} {p' : Pipe} {g' : GroupAllocator}
    (hdrain : ({ p with inbound := p.inbound ++ b } : Pipe).drain g = (result, p', g')) :
    p.write g b = (result.map fun _ => b.length, p', g') := by
  have hlong : ¬ b.length > p.maxMessageSize := by
    have := hb.length_lt
    omega
  unfold write
  rw [if_neg hlong, hdrain]

theorem front_inbound (hb : u.Written b) (hin : p.inbound = []) :
    front (p.inbound ++ b) = .unit b [] := by
  have hfront := hb.front []
  rw [List.append_nil] at hfront
  rw [hin, List.nil_append, hfront]

/-- A unit that is all that came in is processed, and its answers are queued. -/
theorem write_unit (hb : u.Written b) (hin : p.inbound = []) (hsize : 65536 ≤ p.maxMessageSize)
    {answers : List (List UInt8)} (hanswers : (p.endpoint.process g b).answers = .ok answers) :
    p.write g b = (.ok b.length, p.answered (p.endpoint.process g b) answers,
      (p.endpoint.process g b).groups) := by
  let filled : Pipe := { p with inbound := p.inbound ++ b }
  have hfront : front filled.inbound = .unit b [] := front_inbound hb hin
  have hdrain : filled.drain g = (.ok (), p.answered (p.endpoint.process g b) answers,
      (p.endpoint.process g b).groups) := by
    refine (drain_of_unit hfront hanswers).trans ((drain_of_incomplete rfl).trans ?_)
    simp only [answered, hin, filled]
  exact write_of_drain hb hsize hdrain

/-- If it cannot be answered, nothing is queued. -/
theorem write_unit_error (hb : u.Written b) (hin : p.inbound = [])
    (hsize : 65536 ≤ p.maxMessageSize) {err : Error}
    (herror : (p.endpoint.process g b).answers = .error err) :
    p.write g b = (.error err, p.answered (p.endpoint.process g b) [],
      (p.endpoint.process g b).groups) := by
  let filled : Pipe := { p with inbound := p.inbound ++ b }
  have hfront : front filled.inbound = .unit b [] := front_inbound hb hin
  have hdrain : filled.drain g = (.error err, p.answered (p.endpoint.process g b) [],
      (p.endpoint.process g b).groups) := by
    refine (drain_of_unit_error hfront herror).trans ?_
    simp only [answered, hin, filled]
  exact write_of_drain hb hsize hdrain

theorem readUnit_unit (hb : u.Written b) {rest : List UInt8} (hout : p.outbound = b ++ rest) :
    p.readUnit = (some b, { p with outbound := rest }) := by
  unfold readUnit
  rw [hout, hb.front rest]

end Pipe

namespace PipeLink

/-- The link with other bytes in the queue. -/
def withQueue (l : PipeLink) (outbound : List UInt8) : PipeLink :=
  { l with pipe := { l.pipe with outbound } }

/-- The link after a turn of the endpoint behind it. -/
def answered (l : PipeLink) (t : Turn) (answers : List (List UInt8)) : PipeLink :=
  { l with pipe := l.pipe.answered t answers, groups := t.groups }

variable {l : PipeLink}

theorem send_unit (hb : u.Written b) (hconnected : l.isConnected = true)
    (hin : l.pipe.inbound = []) (hsize : 65536 ≤ l.pipe.maxMessageSize)
    {answers : List (List UInt8)}
    (hanswers : (l.pipe.endpoint.process l.groups b).answers = .ok answers) :
    transport.send b l =
      (.ok (), l.answered (l.pipe.endpoint.process l.groups b) answers) := by
  change send b l = _
  unfold send
  rw [if_pos hconnected, Pipe.write_unit hb hin hsize hanswers]
  rfl

theorem send_unit_error (hb : u.Written b) (hconnected : l.isConnected = true)
    (hin : l.pipe.inbound = []) (hsize : 65536 ≤ l.pipe.maxMessageSize) {err : Error}
    (herror : (l.pipe.endpoint.process l.groups b).answers = .error err) :
    transport.send b l = (.error err, l.answered (l.pipe.endpoint.process l.groups b) []) := by
  change send b l = _
  unfold send
  rw [if_pos hconnected, Pipe.write_unit_error hb hin hsize herror]
  rfl

theorem receive_unit (hb : u.Written b) (hconnected : l.isConnected = true) {rest : List UInt8}
    (hout : l.pipe.outbound = b ++ rest) :
    transport.receive l = (.ok b, l.withQueue rest) := by
  change receive l = _
  unfold receive
  rw [if_pos hconnected, Pipe.readUnit_unit hb hout]
  rfl

theorem receive_empty (hout : l.pipe.outbound = []) :
    ∃ err, transport.receive l = (.error err, l) := by
  have hnone : l.pipe.readUnit = (none, l.pipe) := by
    unfold Pipe.readUnit
    rw [hout]
    rfl
  change ∃ err, receive l = (.error err, l)
  unfold receive
  rw [hnone]
  split <;> exact ⟨_, rfl⟩

end PipeLink

end RemoteCall
