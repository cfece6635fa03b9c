import RemoteCall.Proofs.Stream.Queue

/-! Writes that fail. A pipe stops at the first bytes that are an error, and what it does with them
depends on what is wrong (`Pipe.Obstacle`). A unit that the endpoint rejects is taken away, and so is
all that came in if a header announces too little. But a header whose label cannot be read stays
where it is, and every later write fails on it again (`Pipe.write_error`). -/

namespace RemoteCall

theorem front_eq_badLabel {data : List UInt8} {err : Error} (h : front data = .badLabel err) :
    Header.size ≤ data.length ∧ Header.peekLength data = .error err := by
  unfold front at h
  split at h
  · cases h
  · rename_i hlong
    split at h
    · rename_i hpeek
      cases h
      exact ⟨Nat.not_lt.mp hlong, hpeek⟩
    · split at h
      · cases h
      · split at h <;> cases h

theorem front_eq_tooShort {data : List UInt8} {n : Nat} (h : front data = .tooShort n) :
    Header.peekLength data = .ok n ∧ n < Header.size := by
  unfold front at h
  split at h
  · cases h
  · split at h
    · cases h
    · rename_i hpeek
      split at h
      · rename_i hshort
        cases h
        exact ⟨hpeek, hshort⟩
      · split at h <;> cases h

namespace Pipe

/-- The pipe with more bytes from the client. -/
def filled (p : Pipe) (data : List UInt8) : Pipe := { p with inbound := p.inbound ++ data }

variable {p p' : Pipe} {g g' : GroupAllocator} {data bytes rest : List UInt8} {err : Error}

theorem write_eq (hsize : data.length ≤ p.maxMessageSize) :
    p.write g data = (((p.filled data).drain g).1.map fun _ => data.length,
      ((p.filled data).drain g).2.1, ((p.filled data).drain g).2.2) := by
  unfold write
  exact if_neg (Nat.not_lt.mpr hsize)

theorem write_of_long (hlong : p.maxMessageSize < data.length) (g : GroupAllocator) :
    p.write g data = (.error (.invalidParameter .messageTooLarge), p, g) :=
  if_pos hlong

/-! ## What is in the way -/

/-- What stops an endpoint at the front of the bytes that wait: the error, and what is left of the
bytes. -/
inductive Obstacle (e : Endpoint) (g : GroupAllocator) : List UInt8 → Error → List UInt8 → Prop
  | rejected {u rest : List UInt8} {err : Error} (hu : IsUnit u)
      (hanswers : (e.process g u).answers = .error err) : Obstacle e g (u ++ rest) err rest
  | length {bytes : List UInt8} {n : Nat} (hpeek : Header.peekLength bytes = .ok n)
      (hshort : n < Header.size) : Obstacle e g bytes (Front.tooShortError n) []
  | label {bytes : List UInt8} {err : Error} (hsize : Header.size ≤ bytes.length)
      (hpeek : Header.peekLength bytes = .error err) : Obstacle e g bytes err bytes

/-- How far a pipe gets with what came in: these units are answered, and then these bytes wait. -/
structure Reaches (p : Pipe) (g : GroupAllocator) (us : List (List UInt8)) (bytes : List UInt8) :
    Prop where
  cut : p.inbound = us.flatten ++ bytes
  units : ∀ u ∈ us, IsUnit u
  answered : (p.endpoint.processAll g us).result = .ok ()

/-- Units are answered, their answers are queued, and then something is in the way. -/
inductive Stops (p : Pipe) (g : GroupAllocator) (err : Error) (p' : Pipe) : Prop
  | after (us : List (List UInt8)) (bytes : List UInt8) (hreaches : p.Reaches g us bytes)
      (hqueued : p'.outbound = p.outbound ++ (p.endpoint.processAll g us).answers.flatten)
      (hobstacle : Obstacle (p.endpoint.processAll g us).endpoint
        (p.endpoint.processAll g us).groups bytes err p'.inbound)

theorem Stops.atOnce (hqueued : p'.outbound = p.outbound)
    (hobstacle : Obstacle p.endpoint g p.inbound err p'.inbound) : p.Stops g err p' :=
  .after [] _ ⟨rfl, List.forall_mem_nil _, rfl⟩
    (hqueued.trans (List.append_nil _).symm) hobstacle

/-- Step: one more unit is answered before. -/
theorem Stops.cons {u : List UInt8} {answers : List (List UInt8)} (hu : IsUnit u)
    (hin : p.inbound = u ++ rest) (hanswers : (p.endpoint.process g u).answers = .ok answers)
    (h : ({ p.answered (p.endpoint.process g u) answers with inbound := rest } : Pipe).Stops
      (p.endpoint.process g u).groups err p') : p.Stops g err p' := by
  obtain ⟨us, bytes, ⟨hcut, hunits, hanswered⟩, hqueued, hobstacle⟩ := h
  have hall : p.endpoint.processAll g (u :: us) = _ := Endpoint.processAll_cons_of_ok hanswers
  refine .after (u :: us) bytes ⟨?cut, ?units, ?answered⟩ ?queued ?obstacle
  case cut => rw [hin, List.flatten_cons, List.append_assoc, ← hcut]
  case units => exact List.forall_mem_cons.mpr ⟨hu, hunits⟩
  case answered =>
    rw [hall]
    exact hanswered
  case queued =>
    rw [hall, hqueued]
    simp only [answered, Progress.after, List.flatten_append, List.append_assoc]
  case obstacle =>
    rw [hall]
    exact hobstacle

/-- Run: by induction on the bytes that wait, over one unit after another. -/
theorem stops_of_drain (h : p.drain g = (.error err, p', g')) : p.Stops g err p' := by
  induction hlength : p.inbound.length using Nat.strongRecOn generalizing p g with
  | ind n ih =>
    cases hfront : front p.inbound with
    | incomplete =>
      rw [drain_of_incomplete hfront] at h
      cases h
    | badLabel e =>
      rw [drain_of_badLabel hfront] at h
      cases h
      obtain ⟨hsize, hpeek⟩ := front_eq_badLabel hfront
      exact .atOnce rfl (.label hsize hpeek)
    | tooShort m =>
      rw [drain_of_tooShort hfront] at h
      cases h
      obtain ⟨hpeek, hshort⟩ := front_eq_tooShort hfront
      exact .atOnce rfl (.length hpeek hshort)
    | unit u rest =>
      obtain ⟨hin, hu⟩ := front_eq_unit_iff.mp hfront
      cases hanswers : (p.endpoint.process g u).answers with
      | error e =>
        rw [drain_of_unit_error hfront hanswers] at h
        cases h
        refine .atOnce (List.append_nil _) ?_
        rw [hin]
        exact .rejected hu hanswers
      | ok answers =>
        rw [drain_of_unit hfront hanswers] at h
        exact .cons hu hin hanswers
          (ih _ (hlength ▸ length_rest_lt_of_front_unit hfront) h rfl)

/-- It takes a header for something to be in the way. -/
theorem Obstacle.header {e : Endpoint} (h : Obstacle e g bytes err rest) :
    Header.size ≤ bytes.length := by
  cases h with
  | rejected hu =>
    rw [List.length_append]
    exact Nat.le_add_right_of_le hu.header
  | length hpeek => exact Header.size_le_of_peekLength hpeek
  | label hsize => exact hsize

/-- What is taken away when the next header announces `n` bytes: so many if they are a unit, which
the endpoint then rejects, and everything if they are too few for a header. -/
def Removes (e : Endpoint) (g : GroupAllocator) (bytes : List UInt8) (err : Error) (n : Nat)
    (rest : List UInt8) : Prop :=
  if n < Header.size then err = Front.tooShortError n ∧ rest = []
  else (e.process g (bytes.take n)).answers = .error err ∧ rest = bytes.drop n

theorem Obstacle.removes {e : Endpoint} {n : Nat} (h : Obstacle e g bytes err rest)
    (hpeek : Header.peekLength bytes = .ok n) : Removes e g bytes err n rest := by
  cases h with
  | @rejected u rest _ hu hanswers =>
    have hannounced := Header.peekLength_append hu.header rest
    rw [hpeek, hu.announced, Except.ok.injEq] at hannounced
    subst hannounced
    rw [Removes, if_neg (Nat.not_lt.mpr hu.header), List.take_left, List.drop_left]
    exact ⟨hanswers, rfl⟩
  | length hpeek' hshort =>
    rw [hpeek, Except.ok.injEq] at hpeek'
    subst hpeek'
    rw [Removes, if_pos hshort]
    exact ⟨rfl, rfl⟩
  | label _ hpeek' =>
    rw [hpeek] at hpeek'
    cases hpeek'

/-- Something is taken away then. -/
theorem Removes.suffix {e : Endpoint} {n : Nat} (h : Removes e g bytes err n rest)
    (hheader : Header.size ≤ bytes.length) : rest <:+ bytes ∧ rest ≠ bytes := by
  have hsize : 0 < Header.size := by decide
  have hlength : ∀ {rest : List UInt8}, rest.length < bytes.length → rest ≠ bytes := fun hlt hsame =>
    Nat.ne_of_lt hlt (congrArg List.length hsame)
  unfold Removes at h
  split at h
  · obtain ⟨-, rfl⟩ := h
    exact ⟨List.nil_suffix, hlength (Nat.lt_of_lt_of_le hsize hheader)⟩
  · obtain ⟨-, rfl⟩ := h
    refine ⟨List.drop_suffix n bytes, hlength ?_⟩
    rw [List.length_drop]
    omega

/-- If it cannot, all of them are left. -/
theorem Obstacle.inbound_of_error {e : Endpoint} {err' : Error} (h : Obstacle e g bytes err rest)
    (hpeek : Header.peekLength bytes = .error err') : err' = err ∧ rest = bytes := by
  cases h with
  | @rejected u rest _ hu _ =>
    have hannounced := Header.peekLength_append hu.header rest
    rw [hpeek, hu.announced] at hannounced
    cases hannounced
  | length hpeek' =>
    rw [hpeek] at hpeek'
    cases hpeek'
  | label _ hpeek' =>
    rw [hpeek] at hpeek'
    cases hpeek'
    exact ⟨rfl, rfl⟩

/-! ## Pipes that are stuck -/

/-- The next header has a label that cannot be read. -/
structure Stuck (p : Pipe) (err : Error) : Prop where
  header : Header.size ≤ p.inbound.length
  label : Header.peekLength p.inbound = .error err

namespace Stuck

theorem filled (h : p.Stuck err) (data : List UInt8) : (p.filled data).Stuck err := by
  refine ⟨?_, ?_⟩
  · change Header.size ≤ (p.inbound ++ data).length
    rw [List.length_append]
    exact Nat.le_add_right_of_le h.header
  · exact (Header.peekLength_append h.header data).trans h.label

theorem front (h : p.Stuck err) : front p.inbound = .badLabel err := by
  unfold RemoteCall.front
  rw [if_neg (Nat.not_lt.mpr h.header), h.label]

/-- Any write fails, and does nothing but add to what waits. -/
theorem write (h : p.Stuck err) (hsize : data.length ≤ p.maxMessageSize) (g : GroupAllocator) :
    p.write g data = (.error err, p.filled data, g) := by
  rw [write_eq hsize, drain_of_badLabel (h.filled data).front]
  rfl

theorem sent (h : p.Stuck err) (g : GroupAllocator) (data : List UInt8) : p.sent g data = [] := by
  have hunits : unitsOf (p.inbound ++ data) = [] := by
    refine unitsOf_of_front_ne fun u rest => ?_
    rw [show RemoteCall.front (p.inbound ++ data) = .badLabel err from (h.filled data).front]
    nofun
  unfold Pipe.sent
  rw [hunits]
  split <;> rfl

end Stuck

/-- Since a pipe got stuck, its endpoint has sent nothing and has not moved. -/
structure StuckSince (start : Pipe) (err : Error) (s : Record) : Prop where
  stuck : s.pipe.Stuck err
  sent : s.sent = []
  endpoint : s.pipe.endpoint = start.endpoint

theorem readUnit_inbound (p : Pipe) : p.readUnit.2.inbound = p.inbound := by
  unfold readUnit
  split <;> rfl

/-- Step: whatever is done with the pipe, it stays stuck. -/
theorem StuckSince.step {start : Pipe} {s : Record} (h : StuckSince start err s) (op : Operation) :
    StuckSince start err (s.step op) := by
  obtain ⟨hstuck, hsent, hendpoint⟩ := h
  cases op with
  | write g data =>
    have hnothing : s.sent ++ s.pipe.sent g data = [] := by rw [hsent, hstuck.sent, List.append_nil]
    by_cases hsize : data.length ≤ s.pipe.maxMessageSize
    · have hpipe : (s.step (.write g data)).pipe = s.pipe.filled data :=
        congrArg (·.2.1) (hstuck.write hsize g)
      exact ⟨hpipe ▸ hstuck.filled data, hnothing, (congrArg Pipe.endpoint hpipe).trans hendpoint⟩
    · have hpipe : (s.step (.write g data)).pipe = s.pipe :=
        congrArg (·.2.1) (write_of_long (Nat.not_le.mp hsize) g)
      exact ⟨hpipe ▸ hstuck, hnothing, (congrArg Pipe.endpoint hpipe).trans hendpoint⟩
  | readUnit =>
    have hin := readUnit_inbound s.pipe
    exact ⟨⟨hin ▸ hstuck.header, hin ▸ hstuck.label⟩, hsent,
      (Record.readUnit_endpoint s.pipe).trans hendpoint⟩
  | read max => exact ⟨⟨hstuck.header, hstuck.label⟩, hsent, hendpoint⟩
  | peek max => exact ⟨hstuck, hsent, hendpoint⟩

/-- Run: it never gets free. -/
theorem Stuck.after (h : p.Stuck err) (ops : List Operation) :
    StuckSince p err ((Record.start p).after ops) :=
  List.foldlRecOn ops Record.step ⟨h, rfl, rfl⟩ fun _ hs op _ => hs.step op

/-! ## Writes -/

/-- **A failed write takes away what made it fail, unless this is a label.** The units before it are
answered, and their answers stay in the queue. Of the bytes that were not processed when the error
arose, the next header tells how many it announces: so many are gone, or all if these are too few for
a header, and in either case some are. If the label of this header cannot be read, they are all left,
and whatever is done with the pipe from then on, every write fails in the same way and no unit is
answered any more. -/
theorem write_error (hsize : data.length ≤ p.maxMessageSize)
    (hwrite : p.write g data = (.error err, p', g')) :
    ∃ us bytes, (p.filled data).Reaches g us bytes ∧ Header.size ≤ bytes.length ∧
      p'.outbound = p.outbound ++ (p.endpoint.processAll g us).answers.flatten ∧
      (∀ n, Header.peekLength bytes = .ok n →
        Removes (p.endpoint.processAll g us).endpoint (p.endpoint.processAll g us).groups bytes err n
          p'.inbound ∧
        p'.inbound <:+ bytes ∧ p'.inbound ≠ bytes) ∧
      ∀ err', Header.peekLength bytes = .error err' → err' = err ∧ p'.inbound = bytes ∧
        ∀ ops, let s := (Record.start p').after ops
          s.sent = [] ∧ s.pipe.endpoint = p'.endpoint ∧
            ∀ g more, more.length ≤ s.pipe.maxMessageSize →
              s.pipe.write g more = (.error err, s.pipe.filled more, g) := by
  have hdrain : (p.filled data).drain g = (.error err, p', g') := by
    rw [write_eq hsize] at hwrite
    obtain ⟨hresult, hp', hg'⟩ := by simpa only [Prod.mk.injEq] using hwrite
    cases hfirst : ((p.filled data).drain g).1 with
    | ok n =>
      rw [hfirst] at hresult
      cases hresult
    | error e =>
      rw [hfirst] at hresult
      cases hresult
      exact Prod.ext hfirst (Prod.ext hp' hg')
  obtain ⟨us, bytes, hreaches, hqueued, hobstacle⟩ := stops_of_drain hdrain
  refine ⟨us, bytes, hreaches, hobstacle.header, hqueued, fun n hpeek => ?_, fun err' hpeek => ?_⟩
  · have hremoves := hobstacle.removes hpeek
    exact ⟨hremoves, hremoves.suffix hobstacle.header⟩
  obtain ⟨rfl, hleft⟩ := hobstacle.inbound_of_error hpeek
  refine ⟨rfl, hleft, fun ops => ?_⟩
  have hstuck : p'.Stuck err' := ⟨hleft ▸ hobstacle.header, hleft ▸ hpeek⟩
  obtain ⟨hs, hsent, hendpoint⟩ := hstuck.after ops
  exact ⟨hsent, hendpoint, fun g more hmore => hs.write hmore g⟩

/-- A request that is answered by a fault, a request that ends with its header, and the first bytes
of one more unit. -/
def sampleRejected : List UInt8 :=
  [5, 0, 0, 3, 16, 0, 0, 0, 24, 0, 0, 0, 1, 0, 0, 0, 0, 0, 0, 0, 7, 0, 2, 0] ++
    (Endpoint.headerOnly ++ [5, 0, 19])

/-- The second request is taken away, and the fault for the first one can be read. -/
theorem write_error_sampleRejected :
    ∃ err p' us bytes, sampleRejected.length ≤ samplePipe.maxMessageSize ∧
      samplePipe.write .new sampleRejected = (.error err, p', .new) ∧ p'.inbound = [5, 0, 19] ∧
      p'.outbound = [5, 0, 3, 35, 16, 0, 0, 0, 32, 0, 0, 0, 1, 0, 0, 0,
        32, 0, 0, 0, 7, 0, 0, 0, 3, 0, 1, 28, 0, 0, 0, 0] ∧
      (samplePipe.filled sampleRejected).Reaches .new us bytes ∧ p'.inbound <:+ bytes ∧
      p'.inbound ≠ bytes := by
  have hsize : sampleRejected.length ≤ samplePipe.maxMessageSize := by decide
  obtain ⟨err, p', hwrite, hin, hout⟩ : ∃ err p',
      samplePipe.write .new sampleRejected = (.error err, p', .new) ∧ p'.inbound = [5, 0, 19] ∧
      p'.outbound = [5, 0, 3, 35, 16, 0, 0, 0, 32, 0, 0, 0, 1, 0, 0, 0,
        32, 0, 0, 0, 7, 0, 0, 0, 3, 0, 1, 28, 0, 0, 0, 0] :=
    ⟨_, _, by with_unfolding_all rfl, rfl, rfl⟩
  obtain ⟨us, bytes, hreaches, hheader, -, hok, herror⟩ := write_error hsize hwrite
  refine ⟨err, p', us, bytes, hsize, hwrite, hin, hout, hreaches, ?_⟩
  cases hpeek : Header.peekLength bytes with
  | ok n => exact (hok n hpeek).2
  | error err' =>
    obtain ⟨-, hleft, -⟩ := herror err' hpeek
    rw [← hleft, hin] at hheader
    exact absurd hheader (by decide)

/-- A header with integers of no known representation, and a unit that no endpoint rejects. -/
def sampleLabel : List UInt8 := [5, 0, 19, 3, 32, 0, 0, 0, 16, 0, 0, 0, 1, 0, 0, 0]

def sampleOrphaned : List UInt8 := [5, 0, 19, 3, 16, 0, 0, 0, 16, 0, 0, 0, 1, 0, 0, 0]

/-- The header is not taken away, and the unit, which a new pipe takes, is never processed. -/
theorem sampleLabel_stays :
    ∃ err p', samplePipe.write .new sampleLabel = (.error err, p', .new) ∧
      p'.inbound = sampleLabel ∧ (p'.write .new sampleOrphaned).1 = .error err ∧
      (samplePipe.write .new sampleOrphaned).1 = .ok 16 :=
  ⟨.malformedPdu 4 (.integerRepresentation 2), { samplePipe with inbound := sampleLabel },
    by with_unfolding_all rfl, rfl, by decide +kernel, by decide +kernel⟩

end Pipe

end RemoteCall
