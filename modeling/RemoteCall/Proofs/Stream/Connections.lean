import RemoteCall.Proofs.Stream.Reads
import RemoteCall.Proofs.Stream.Writes
import RemoteCall.Server

/-! Connections. A connection that is given a stream writes what the endpoint answers to the units
of it (`Connection.serve_frames`). It cuts off the same units as the reads of the stream, and as a
pipe to which the stream is written. -/

namespace RemoteCall

namespace Connection

/-- The connection after its endpoint has processed units, with `buffer` left of what arrived. It is
open as long as there was no error. -/
def progressed (made : Progress) (buffer : List UInt8) (isOpen : Bool) : Connection :=
  ⟨made.endpoint, made.groups, buffer, isOpen⟩

variable {c : Connection} {us : List (List UInt8)} {framing : Except Error (List UInt8)}

/-! ## Whole units of the buffer -/

theorem answer_of_incomplete (h : front c.buffer = .incomplete) : c.answer = ([], c) := by
  rw [answer]
  split
  case h_1 => rfl
  all_goals simp_all only [reduceCtorEq]

theorem answer_of_malformed {e : Error} (h : (front c.buffer).error? = some e) :
    c.answer = ([], { c with isOpen := false }) := by
  rw [answer]
  split
  case h_1 heq =>
    rw [heq] at h
    cases h
  case h_2 => rfl
  case h_3 => rfl
  case h_4 heq =>
    rw [heq] at h
    cases h

/-- The connection after one unit was processed. -/
def answered (c : Connection) (t : Turn) (rest : List UInt8) : Connection :=
  { c with endpoint := t.endpoint, groups := t.groups, buffer := rest }

theorem answer_of_unit {u rest : List UInt8} {answers : List (List UInt8)}
    (h : front c.buffer = .unit u rest)
    (hanswers : (c.endpoint.process c.groups u).answers = .ok answers) :
    c.answer = (answers.flatten ++ (c.answered (c.endpoint.process c.groups u) rest).answer.1,
      (c.answered (c.endpoint.process c.groups u) rest).answer.2) := by
  rw [answer]
  split
  case h_4 heq =>
    rw [h] at heq
    cases heq
    simp only [hanswers]
    rfl
  all_goals simp_all only [reduceCtorEq]

theorem answer_of_unit_error {u rest : List UInt8} {err : Error}
    (h : front c.buffer = .unit u rest)
    (hanswers : (c.endpoint.process c.groups u).answers = .error err) :
    c.answer = ([], { c.answered (c.endpoint.process c.groups u) rest with isOpen := false }) := by
  rw [answer]
  split
  case h_4 heq =>
    rw [h] at heq
    cases heq
    simp only [hanswers]
    rfl
  all_goals simp_all only [reduceCtorEq]

/-- The whole units of the buffer are processed, up to the first error, which closes the
connection. -/
theorem answer_frames (hopen : c.isOpen = true) (h : Frames c.buffer us framing) :
    ∃ buffer isOpen, c.answer = ((c.endpoint.processAll c.groups us).answers.flatten,
        progressed (c.endpoint.processAll c.groups us) buffer isOpen) ∧
      (∀ tail, (c.endpoint.processAll c.groups us).ending framing = .ok tail →
        buffer = tail ∧ isOpen = true) ∧
      ∀ err, (c.endpoint.processAll c.groups us).ending framing = .error err → isOpen = false := by
  generalize hdata : c.buffer = data at h
  induction h generalizing c with
  | incomplete hpartial =>
    refine ⟨c.buffer, c.isOpen, answer_of_incomplete (hdata ▸ hpartial.front), ?_, ?_⟩
    · rintro tail ⟨⟩
      exact ⟨hdata, hopen⟩
    · rintro err ⟨⟩
  | malformed hmalformed =>
    refine ⟨c.buffer, false, answer_of_malformed (hdata ▸ hmalformed.front), ?_, fun _ _ => rfl⟩
    rintro tail ⟨⟩
  | @unit u data us framing hu _ ih =>
    have hfront : front c.buffer = .unit u data := hdata ▸ hu.front data
    cases hanswers : (c.endpoint.process c.groups u).answers with
    | error err =>
      rw [Endpoint.processAll_cons_of_error hanswers]
      refine ⟨data, false, answer_of_unit_error hfront hanswers, ?_, fun _ _ => rfl⟩
      rintro tail ⟨⟩
    | ok answers =>
      let next := c.answered (c.endpoint.process c.groups u) data
      obtain ⟨buffer, isOpen, hanswer, hends, hcloses⟩ := ih (c := next) hopen rfl
      rw [Endpoint.processAll_cons_of_ok hanswers]
      refine ⟨buffer, isOpen, ?_, hends, hcloses⟩
      rw [answer_of_unit hfront hanswers, hanswer]
      simp only [progressed, Progress.after, List.flatten_append]
      rfl

/-! ## All pieces of a stream -/

/-- A closed connection writes nothing. -/
theorem serve_of_closed (hclosed : c.isOpen = false) (pieces : List (List UInt8)) :
    c.serve pieces = ([], c) := by
  induction pieces with
  | nil => rfl
  | cons piece pieces ih =>
    have hreceive : c.receive piece = ([], c) := by
      rw [receive, hclosed]
      rfl
    rw [serve, hreceive]
    dsimp only
    rw [ih]
    rfl

/-- Run: in whatever pieces the stream arrives, the connection writes the answers to its units, up
to the first error. -/
theorem serve_frames {pieces : List (List UInt8)} (hopen : c.isOpen = true)
    (hpartial : IsPartial c.buffer) (h : Frames (c.buffer ++ pieces.flatten) us framing) :
    ∃ buffer isOpen, c.serve pieces =
      ((c.endpoint.processAll c.groups us).answers.flatten,
        progressed (c.endpoint.processAll c.groups us) buffer isOpen) := by
  induction pieces generalizing c us with
  | nil =>
    rw [List.flatten_nil, List.append_nil] at h
    obtain ⟨rfl, rfl⟩ := h.of_front_incomplete hpartial.front
    exact ⟨c.buffer, c.isOpen, rfl⟩
  | cons piece pieces ih =>
    rw [List.flatten_cons, ← List.append_assoc] at h
    obtain ⟨vs, framing₁, hfirst, hrest⟩ := h.split_progress c.endpoint c.groups
    obtain ⟨buffer, isOpen, hanswer, hends, hcloses⟩ :=
      answer_frames (c := { c with buffer := c.buffer ++ piece }) hopen hfirst
    rw [serve, receive, if_pos hopen, hanswer]
    dsimp only at hends hcloses ⊢
    rcases hrest with ⟨err, herr, hall, -⟩ | ⟨tail, ws, hok, hframes, hall⟩
    · refine ⟨buffer, isOpen, ?_⟩
      rw [serve_of_closed (hcloses err herr), hall, List.append_nil]
    · obtain ⟨rfl, rfl⟩ := hends tail hok
      have hpartial' : IsPartial buffer := by
        obtain ⟨-, rfl⟩ := Progress.ending_eq_ok_iff.mp hok
        exact hfirst.isPartial
      obtain ⟨buffer', isOpen', hserve⟩ :=
        ih (c := progressed (c.endpoint.processAll c.groups vs) buffer true) rfl hpartial' hframes
      refine ⟨buffer', isOpen', ?_⟩
      rw [hserve, hall]
      simp only [progressed, Progress.after, List.flatten_append]

/-! ## The same units for every transport -/

/-- **Reads, connections and pipes agree on the units of a stream.** In whatever pieces it arrives,
the reads give its units, and then nothing, the loss of a partial unit or the defect of the first
malformed header. So what an endpoint answers over a connection are the answers to the units up to
the first error, however much each read takes, and these are also what a pipe to an equal
endpoint queues, up to the first write that fails. -/
theorem agrees_with_reads_and_writes {ρ : Type} [Intake ρ] (room : ρ)
    {pieces writes : List (List UInt8)} {p : Pipe} {g : GroupAllocator} (hpieces : [] ∉ pieces)
    (hsame : writes.flatten = pieces.flatten)
    (hsize : ∀ data ∈ writes, data.length ≤ p.maxMessageSize) (hempty : p.inbound = []) :
    ∃ us framing, Frames pieces.flatten us framing ∧
      (∀ err, framing = .error err → ∃ offset defect, err = .malformedPdu offset defect) ∧
      (Stream.readAll ⟨[], room, pieces⟩).1 = us ∧
      (Stream.readAll ⟨[], room, pieces⟩).2.1 = Stream.closing framing ∧
      p.endpoint.serve g ⟨[], room, pieces⟩ = { p.endpoint.processAll g us with
        result := Stream.closing ((p.endpoint.processAll g us).ending framing) } ∧
      (serve ⟨p.endpoint, g, [], true⟩ pieces).1 =
        (p.endpoint.processAll g us).answers.flatten ∧
      (p.writeAll g writes).2.1.outbound =
        p.outbound ++ (p.endpoint.processAll g us).answers.flatten ∧
      ∀ err, (p.endpoint.processAll g us).ending framing = .error err →
        (p.writeAll g writes).1.getLast? = some (.error err) := by
  obtain ⟨us, framing, hframes⟩ := exists_frames pieces.flatten
  have hread : Frames (Stream.content ⟨[], room, pieces⟩) us framing := hframes
  obtain ⟨hunits, hclosing⟩ := Stream.readAll_frames hpieces hread
  obtain ⟨_, _, hserve⟩ :=
    serve_frames (c := ⟨p.endpoint, g, [], true⟩) rfl isPartial_nil hframes
  have hwritten : Frames (p.inbound ++ writes.flatten) us framing := by
    rw [hempty, hsame]
    exact hframes
  have hpartial : IsPartial p.inbound := by
    rw [hempty]
    exact isPartial_nil
  obtain ⟨results, inbound, hwrites, -, herrors⟩ :=
    Pipe.writeAll_frames hpartial hsize hwritten g
  have hprogress := Endpoint.serve_frames (e := p.endpoint) (g := g) hpieces hread
  refine ⟨us, framing, hframes, ?_, hunits, hclosing, hprogress, ?_, ?_, ?_⟩
  · rintro err rfl
    exact hframes.malformedPdu
  · rw [hserve]
  · rw [hwrites]
    rfl
  · rw [hwrites]
    exact herrors

/-- The sample stream byte by byte over a connection, and in some larger pieces over a pipe. It ends
within a unit. -/
theorem agrees_on_samplePieces :
    (serve ⟨Pipe.samplePipe.endpoint, .new, [], true⟩
        (Pipe.samplePieces.flatten.map fun byte => [byte])).1 =
      (Pipe.samplePipe.writeAll .new Pipe.samplePieces).2.1.outbound ∧
    (Stream.ofPieces (Pipe.samplePieces.flatten.map fun byte => [byte])).readAll.2.1 =
      .error .connectionClosed := by
  have hpieces : [] ∉ Pipe.samplePieces.flatten.map fun byte => [byte] := by decide
  have hsame : Pipe.samplePieces.flatten =
      (Pipe.samplePieces.flatten.map fun byte => [byte]).flatten := by decide
  have hsize : ∀ data ∈ Pipe.samplePieces, data.length ≤ Pipe.samplePipe.maxMessageSize := by decide
  obtain ⟨us, framing, hframes, -, -, hclosing, -, hserve, hwrites, -⟩ :=
    agrees_with_reads_and_writes (g := .new) Room.none hpieces hsame hsize rfl
  rw [← hsame] at hframes
  obtain ⟨rfl, rfl⟩ := hframes.unique Pipe.frames_samplePieces
  exact ⟨hserve.trans hwrites.symm, hclosing⟩

end Connection

end RemoteCall
