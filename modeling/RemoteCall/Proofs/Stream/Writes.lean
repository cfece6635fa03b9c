import RemoteCall.Proofs.Pipe
import RemoteCall.Proofs.Stream.Progress

/-! Writes to a pipe. However a stream is cut into writes, the endpoint processes the units of the
stream, and the answers queue up in the order of the units. -/

namespace RemoteCall.Pipe

/-- Writes one after the other, up to the first that fails: what each of them gives, and the state
that is left. -/
def writeAll (p : Pipe) (g : GroupAllocator) :
    List (List UInt8) → List (Except Error Nat) × Pipe × GroupAllocator
  | [] => ([], p, g)
  | data :: pieces =>
    match p.write g data with
    | (.error e, p, g) => ([.error e], p, g)
    | (.ok n, p, g) =>
      let (results, p, g) := writeAll p g pieces
      (.ok n :: results, p, g)

/-- The pipe after its endpoint has processed units, with the answers in the queue and `inbound`
left of what came in. -/
def progressed (p : Pipe) (made : Progress) (inbound : List UInt8) : Pipe :=
  { p with endpoint := made.endpoint, inbound, outbound := p.outbound ++ made.answers.flatten }

variable {p : Pipe} {us : List (List UInt8)} {framing : Except Error (List UInt8)}

/-- The units that came in are processed, up to the first error. -/
theorem drain_frames (h : Frames p.inbound us framing) (g : GroupAllocator) :
    ∃ inbound, p.drain g =
        (((p.endpoint.processAll g us).ending framing).map fun _ => (),
          p.progressed (p.endpoint.processAll g us) inbound,
          (p.endpoint.processAll g us).groups) ∧
      ∀ tail, (p.endpoint.processAll g us).ending framing = .ok tail → inbound = tail := by
  generalize hdata : p.inbound = data at h
  induction h generalizing p g with
  | incomplete hpartial =>
    refine ⟨p.inbound, ?_, ?_⟩
    · rw [drain_of_incomplete (hdata ▸ hpartial.front)]
      simp [progressed, Endpoint.processAll, Progress.ending, Except.map]
    · rintro tail ⟨⟩
      exact hdata
  | malformed hmalformed =>
    obtain ⟨inbound, hdrain⟩ := drain_of_malformed (g := g) (hdata ▸ hmalformed.front)
    refine ⟨inbound, ?_, ?_⟩
    · rw [hdrain]
      simp [progressed, Endpoint.processAll, Progress.ending, Except.map]
    · rintro tail ⟨⟩
  | @unit u data us framing hu _ ih =>
    have hfront : front p.inbound = .unit u data := hdata ▸ hu.front data
    cases hanswers : (p.endpoint.process g u).answers with
    | error err =>
      rw [Endpoint.processAll_cons_of_error hanswers]
      refine ⟨data, ?_, ?_⟩
      · rw [drain_of_unit_error hfront hanswers]
        simp [progressed, answered, Progress.ending, Except.map]
      · rintro tail ⟨⟩
    | ok answers =>
      obtain ⟨inbound, hdrain, hinbound⟩ := ih
        (p := { p.answered (p.endpoint.process g u) answers with inbound := data })
        (p.endpoint.process g u).groups rfl
      rw [Endpoint.processAll_cons_of_ok hanswers, drain_of_unit hfront hanswers]
      refine ⟨inbound, hdrain.trans ?_, hinbound⟩
      simp only [progressed, answered, Progress.after, Progress.ending, List.flatten_append,
        List.append_assoc]

/-- A write that is not too long processes the units that it completes. -/
theorem write_frames {data : List UInt8} (hsize : data.length ≤ p.maxMessageSize)
    (h : Frames (p.inbound ++ data) us framing) (g : GroupAllocator) :
    ∃ inbound, p.write g data =
        (((p.endpoint.processAll g us).ending framing).map fun _ => data.length,
          p.progressed (p.endpoint.processAll g us) inbound,
          (p.endpoint.processAll g us).groups) ∧
      ∀ tail, (p.endpoint.processAll g us).ending framing = .ok tail → inbound = tail := by
  let filled : Pipe := { p with inbound := p.inbound ++ data }
  obtain ⟨inbound, hdrain, hinbound⟩ := drain_frames (p := filled) h g
  refine ⟨inbound, ?_, hinbound⟩
  have hfilled : filled.endpoint = p.endpoint := rfl
  rw [hfilled] at hdrain
  unfold write
  rw [if_neg (by omega), hdrain]
  cases (p.endpoint.processAll g us).ending framing <;> rfl

/-- Run: all writes together process the units of the stream, up to the first error, which is what
the last write gives. -/
theorem writeAll_frames {pieces : List (List UInt8)} (hpartial : IsPartial p.inbound)
    (hsize : ∀ piece ∈ pieces, piece.length ≤ p.maxMessageSize)
    (h : Frames (p.inbound ++ pieces.flatten) us framing) (g : GroupAllocator) :
    ∃ results inbound, p.writeAll g pieces =
        (results, p.progressed (p.endpoint.processAll g us) inbound,
          (p.endpoint.processAll g us).groups) ∧
      (∀ tail, (p.endpoint.processAll g us).ending framing = .ok tail →
        inbound = tail ∧ results = pieces.map fun piece => .ok piece.length) ∧
      ∀ err, (p.endpoint.processAll g us).ending framing = .error err →
        results.getLast? = some (.error err) := by
  induction pieces generalizing p g us with
  | nil =>
    rw [List.flatten_nil, List.append_nil] at h
    obtain ⟨rfl, rfl⟩ := h.of_front_incomplete hpartial.front
    refine ⟨[], p.inbound, ?_, ?_, ?_⟩
    · simp [writeAll, progressed, Endpoint.processAll]
    · rintro tail ⟨⟩
      exact ⟨rfl, rfl⟩
    · rintro err ⟨⟩
  | cons piece pieces ih =>
    rw [List.flatten_cons, ← List.append_assoc] at h
    obtain ⟨vs, framing₁, hfirst, hrest⟩ := h.split_progress p.endpoint g
    obtain ⟨inbound, hwrite, hinbound⟩ := write_frames (hsize piece List.mem_cons_self) hfirst g
    rcases hrest with ⟨err, herr, hall, hending⟩ | ⟨tail, ws, hok, hframes, hall⟩
    · rw [herr] at hwrite
      refine ⟨[.error err], inbound, ?_, ?_, ?_⟩
      · rw [writeAll, hwrite, hall]
        rfl
      · intro tail htail
        rw [hending] at htail
        cases htail
      · intro err' herr'
        rw [hending] at herr'
        cases herr'
        rfl
    · obtain rfl := hinbound tail hok
      rw [hok] at hwrite
      let p' := p.progressed (p.endpoint.processAll g vs) inbound
      have hpartial' : IsPartial p'.inbound := by
        obtain ⟨-, rfl⟩ := Progress.ending_eq_ok_iff.mp hok
        exact hfirst.isPartial
      obtain ⟨results, inbound', hwrites, hends, herrors⟩ := ih (p := p') hpartial'
        (fun piece' hpiece' => hsize piece' (List.mem_cons_of_mem _ hpiece')) hframes
        (p.endpoint.processAll g vs).groups
      rw [hall]
      refine ⟨.ok piece.length :: results, inbound', ?_, ?_, ?_⟩
      · rw [writeAll, hwrite]
        change (_ :: (p'.writeAll _ pieces).1, (p'.writeAll _ pieces).2) = _
        rw [hwrites]
        simp only [p', progressed, Progress.after, List.flatten_append, List.append_assoc]
      · intro tail' htail'
        obtain ⟨rfl, rfl⟩ := hends tail' htail'
        exact ⟨rfl, rfl⟩
      · intro err herr
        rw [List.getLast?_cons, herrors err herr]
        rfl

/-- **Writes do not depend on how the stream is cut.** The units of what came in before and of all
writes are processed once each, in their order, and without an error; then every write takes all of
its bytes, the answers queue up, and what is left of what came in is the start of the next unit. -/
theorem writeAll_eq_of_frames {g : GroupAllocator} {pieces : List (List UInt8)}
    {tail : List UInt8} (hinbound : ∀ u rest, p.inbound = u ++ rest → ¬ IsUnit u)
    (hsize : ∀ piece ∈ pieces, piece.length ≤ p.maxMessageSize)
    (hframes : Frames (p.inbound ++ pieces.flatten) us (.ok tail))
    (hprocessed : (p.endpoint.processAll g us).result = .ok ()) :
    p.writeAll g pieces =
      (pieces.map fun piece => .ok piece.length,
        { p with
          endpoint := (p.endpoint.processAll g us).endpoint
          inbound := tail
          outbound := p.outbound ++ (p.endpoint.processAll g us).answers.flatten },
        (p.endpoint.processAll g us).groups) := by
  have hpartial : IsPartial p.inbound := by
    rcases isUnit_or_isPartial_or_isMalformed p.inbound with ⟨u, rest, hin, hu⟩ | h | ⟨e, h⟩
    · exact absurd hu (hinbound u rest hin)
    · exact h
    · obtain ⟨-, herror⟩ := hframes.of_front_error (h.append pieces.flatten).front
      cases herror
  obtain ⟨results, inbound, hwrites, hends, -⟩ := writeAll_frames hpartial hsize hframes g
  obtain ⟨rfl, rfl⟩ := hends tail (Progress.ending_of_ok hprocessed _)
  exact hwrites

/-- A pipe to a service without operations. -/
def samplePipe : Pipe :=
  .of 1 "none" (.ofService ⟨⟨⟨1, 2, 3, 4⟩, 1, 0, "none"⟩, "none", [.ndr2], .empty⟩)

/-- A request on a context that was never accepted, an orphaned unit and the first bytes of one more
unit, in writes that end at none of their boundaries. -/
def samplePieces : List (List UInt8) :=
  [[5, 0, 0, 3, 16, 0, 0, 0, 24, 0], [],
    [0, 0, 1, 0, 0, 0, 0, 0, 0, 0, 7, 0, 2, 0, 5, 0, 19, 3, 16, 0, 0, 0],
    [16, 0, 0, 0, 1, 0, 0, 0, 5, 0, 0]]

theorem frames_samplePieces :
    Frames samplePieces.flatten
      [[5, 0, 0, 3, 16, 0, 0, 0, 24, 0, 0, 0, 1, 0, 0, 0, 0, 0, 0, 0, 7, 0, 2, 0],
        [5, 0, 19, 3, 16, 0, 0, 0, 16, 0, 0, 0, 1, 0, 0, 0]] (.ok [5, 0, 0]) := by
  have hrequest : IsUnit [5, 0, 0, 3, 16, 0, 0, 0, 24, 0, 0, 0, 1, 0, 0, 0,
      0, 0, 0, 0, 7, 0, 2, 0] := ⟨by decide, rfl⟩
  have horphaned : IsUnit [5, 0, 19, 3, 16, 0, 0, 0, 16, 0, 0, 0, 1, 0, 0, 0] := ⟨by decide, rfl⟩
  have htail : IsPartial [5, 0, 0] := .header (by decide)
  have hframes := Frames.unit hrequest (.unit horphaned (.incomplete htail))
  exact hframes

/-- The request is answered by a fault, the orphaned unit by nothing. -/
theorem writeAll_samplePipe :
    samplePipe.writeAll .new samplePieces =
      ([.ok 10, .ok 0, .ok 22, .ok 11],
        { samplePipe with
          inbound := [5, 0, 0]
          outbound := [5, 0, 3, 35, 16, 0, 0, 0, 32, 0, 0, 0, 1, 0, 0, 0,
            32, 0, 0, 0, 7, 0, 0, 0, 3, 0, 1, 28, 0, 0, 0, 0] }, .new) := by
  have hinbound : ∀ u rest, samplePipe.inbound = u ++ rest → ¬ IsUnit u := by
    intro u rest hin hu
    have hsize := hu.header
    rw [(List.nil_eq_append_iff.mp hin).1] at hsize
    exact absurd hsize (by decide)
  have hsize : ∀ piece ∈ samplePieces, piece.length ≤ samplePipe.maxMessageSize := by decide
  exact writeAll_eq_of_frames hinbound hsize frames_samplePieces rfl

end RemoteCall.Pipe
