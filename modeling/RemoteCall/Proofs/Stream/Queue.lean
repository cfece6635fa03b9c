import RemoteCall.Proofs.Endpoint.Contexts
import RemoteCall.Proofs.Endpoint.Sending
import RemoteCall.Proofs.Stream.Writes

/-! The way of the answers through a pipe. They queue up as bytes without a mark between them, and
come out as the units that the endpoint sent: each once, whole, and in the order in which they were
sent (`Pipe.delivers_in_order`). It is the header of each unit that tells where the unit ends. -/

namespace RemoteCall

/-- The units of a stream, without what comes after them. -/
def unitsOf (data : List UInt8) : List (List UInt8) :=
  match _h : front data with
  | .unit u rest => u :: unitsOf rest
  | _ => []
termination_by data.length
decreasing_by exact length_rest_lt_of_front_unit _h

theorem unitsOf_of_front_unit {data u rest : List UInt8} (h : front data = .unit u rest) :
    unitsOf data = u :: unitsOf rest := by
  rw [unitsOf]
  split
  · rename_i heq
    rw [h] at heq
    cases heq
    rfl
  · rename_i heq
    exact absurd h (heq u rest)

theorem unitsOf_of_front_ne {data : List UInt8} (h : ∀ u rest, front data ≠ .unit u rest) :
    unitsOf data = [] := by
  rw [unitsOf]
  split
  · rename_i heq
    exact absurd heq (h _ _)
  · rfl

theorem Frames.unitsOf_eq {data : List UInt8} {us : List (List UInt8)}
    {ending : Except Error (List UInt8)} (h : Frames data us ending) : unitsOf data = us := by
  induction h with
  | incomplete h =>
    refine unitsOf_of_front_ne fun u rest => ?_
    rw [h.front]
    nofun
  | malformed h =>
    refine unitsOf_of_front_ne fun u rest hfront => ?_
    have herror := h.front
    rw [hfront] at herror
    cases herror
  | unit hu _ ih => rw [unitsOf_of_front_unit (hu.front _), ih]

/-- The units that were sent in an exchange. -/
def Exchange.answers (x : Exchange) : List (List UInt8) :=
  match x.turn.answers with
  | .ok bs => bs
  | .error _ => []

namespace Endpoint

theorem after_append (e : Endpoint) (items items' : List (GroupAllocator × List UInt8)) :
    e.after (items ++ items') = (e.after items).after items' := by
  induction items generalizing e with
  | nil => rfl
  | cons item items ih => exact ih _

theorem exchanges_append (e : Endpoint) (items items' : List (GroupAllocator × List UInt8)) :
    e.exchanges (items ++ items') = e.exchanges items ++ (e.after items).exchanges items' := by
  induction items generalizing e with
  | nil => rfl
  | cons item items ih => exact congrArg (_ :: ·) (ih _)

/-- What is sent for units that are processed in order are whole units. -/
theorem written_of_processAll (e : Endpoint) (g : GroupAllocator) (us : List (List UInt8)) :
    ∀ b ∈ (e.processAll g us).answers, ∃ u : Pdu, u.Written b := by
  induction us generalizing e g with
  | nil => exact List.forall_mem_nil _
  | cons u us ih =>
    cases hanswers : (e.process g u).answers with
    | error err =>
      rw [processAll_cons_of_error hanswers]
      exact List.forall_mem_nil _
    | ok answers =>
      rw [processAll_cons_of_ok hanswers]
      exact List.forall_mem_append.mpr ⟨written_of_process hanswers, ih _ _⟩

/-- Units that are processed in order are a run of the endpoint, and what is sent are its
answers. -/
theorem exists_exchanges_of_processAll (e : Endpoint) (g : GroupAllocator)
    (us : List (List UInt8)) : ∃ items, (e.processAll g us).endpoint = e.after items ∧
      (e.processAll g us).answers = (e.exchanges items).flatMap Exchange.answers := by
  induction us generalizing e g with
  | nil => exact ⟨[], rfl, rfl⟩
  | cons u us ih =>
    cases hanswers : (e.process g u).answers with
    | error err =>
      rw [processAll_cons_of_error hanswers]
      refine ⟨[(g, u)], rfl, ?_⟩
      simp [exchanges, Exchange.answers, hanswers]
    | ok answers =>
      obtain ⟨items, hendpoint, hsent⟩ := ih (e.process g u).endpoint (e.process g u).groups
      rw [processAll_cons_of_ok hanswers]
      refine ⟨(g, u) :: items, hendpoint, ?_⟩
      simp [exchanges, Exchange.answers, hanswers, Progress.after, hsent]

end Endpoint

namespace Pipe

/-- The units that the endpoint sends while the pipe takes bytes in: its answers to the units that
are complete by then, up to the first that is an error. -/
def sent (p : Pipe) (g : GroupAllocator) (data : List UInt8) : List (List UInt8) :=
  if data.length > p.maxMessageSize then []
  else (p.endpoint.processAll g (unitsOf (p.inbound ++ data))).answers

theorem written_of_mem_sent (p : Pipe) (g : GroupAllocator) (data : List UInt8) :
    ∀ b ∈ p.sent g data, ∃ u : Pdu, u.Written b := by
  unfold sent
  split
  · exact List.forall_mem_nil _
  · exact Endpoint.written_of_processAll _ _ _

/-- A write has the endpoint process units, and queues up what it sends. So does a write that
fails. -/
theorem write_sends (p : Pipe) (g : GroupAllocator) (data : List UInt8) :
    (p.write g data).2.1.outbound = p.outbound ++ (p.sent g data).flatten ∧
      ∃ items, (p.write g data).2.1.endpoint = p.endpoint.after items ∧
        p.sent g data = (p.endpoint.exchanges items).flatMap Exchange.answers := by
  unfold sent
  split
  · rename_i hlong
    rw [write, if_pos hlong, List.flatten_nil, List.append_nil]
    exact ⟨rfl, [], rfl, rfl⟩
  · rename_i hsize
    obtain ⟨us, ending, hframes⟩ := exists_frames (p.inbound ++ data)
    obtain ⟨inbound, hwrite, -⟩ := write_frames (Nat.not_lt.mp hsize) hframes g
    rw [hwrite, hframes.unitsOf_eq]
    exact ⟨rfl, p.endpoint.exists_exchanges_of_processAll g us⟩

/-! ## Runs -/

/-- What is done with a pipe. A write comes with the allocator of groups as it is then, for the pipe
shares it with others. -/
inductive Operation
  | write (g : GroupAllocator) (data : List UInt8)
  | readUnit
  | read (max : Nat)
  | peek (max : Nat)

/-- A pipe with its past: what its endpoint sent, unit by unit, and what was read, read by read. -/
structure Record where
  pipe : Pipe
  sent : List (List UInt8)
  taken : List (List UInt8)

namespace Record

/-- A pipe from now on. -/
def start (p : Pipe) : Record := ⟨p, [], []⟩

def step (s : Record) : Operation → Record
  | .write g data =>
    { s with pipe := (s.pipe.write g data).2.1, sent := s.sent ++ s.pipe.sent g data }
  | .readUnit =>
    { s with pipe := s.pipe.readUnit.2, taken := s.taken ++ s.pipe.readUnit.1.toList }
  | .read max => { s with pipe := (s.pipe.read max).2, taken := s.taken ++ [(s.pipe.read max).1] }
  | .peek _ => s

def after (s : Record) (ops : List Operation) : Record := ops.foldl step s

variable {s : Record} {op : Operation} {e : Endpoint} {waiting : List (List UInt8)}

/-! ### What was sent -/

/-- What was sent are the answers of the endpoint, in the run that has brought it where it is. -/
def SentBy (e : Endpoint) (s : Record) : Prop :=
  ∃ items, s.pipe.endpoint = e.after items ∧
    s.sent = (e.exchanges items).flatMap Exchange.answers

theorem readUnit_endpoint (p : Pipe) : p.readUnit.2.endpoint = p.endpoint := by
  unfold readUnit
  split <;> rfl

/-- Step: only a write has the endpoint send anything. -/
theorem SentBy.step (h : s.SentBy e) (op : Operation) : (s.step op).SentBy e := by
  obtain ⟨items, hendpoint, hsent⟩ := h
  cases op with
  | write g data =>
    obtain ⟨-, items', hendpoint', hsent'⟩ := write_sends s.pipe g data
    refine ⟨items ++ items', ?_, ?_⟩
    · rw [Endpoint.after_append, ← hendpoint]
      exact hendpoint'
    · rw [Endpoint.exchanges_append, List.flatMap_append, ← hendpoint, ← hsent, ← hsent']
      rfl
  | readUnit => exact ⟨items, (readUnit_endpoint _).trans hendpoint, hsent⟩
  | read max => exact ⟨items, hendpoint, hsent⟩
  | peek max => exact ⟨items, hendpoint, hsent⟩

/-! ### Bytes -/

/-- No byte is lost, and none comes out twice or out of turn. -/
def Conserves (s : Record) : Prop := s.taken.flatten ++ s.pipe.outbound = s.sent.flatten

theorem readUnit_append (p : Pipe) :
    p.readUnit.1.toList.flatten ++ p.readUnit.2.outbound = p.outbound := by
  unfold readUnit
  split
  · rename_i hfront
    obtain ⟨hcut, -⟩ := front_unit hfront
    rw [hcut]
    simp
  · simp

/-- Step: whatever is done with the pipe, the bytes are conserved. -/
theorem Conserves.step (h : s.Conserves) (op : Operation) : (s.step op).Conserves := by
  unfold Conserves at h ⊢
  cases op with
  | write g data =>
    obtain ⟨hqueue, -⟩ := write_sends s.pipe g data
    simp only [Record.step, hqueue, List.flatten_append, ← h, List.append_assoc]
  | readUnit =>
    simp only [Record.step, List.flatten_append, List.append_assoc, readUnit_append, h]
  | read max =>
    simp only [Record.step, read, Pipe.peek, List.flatten_append, List.flatten_cons,
      List.flatten_nil, List.append_nil, List.append_assoc, List.take_append_drop, h]
  | peek max => exact h

/-! ### Units -/

/-- What was read are the first units that were sent, and the others wait in the queue. -/
structure Delivers (s : Record) (waiting : List (List UInt8)) : Prop where
  sent : s.sent = s.taken ++ waiting
  queue : s.pipe.outbound = waiting.flatten
  whole : ∀ b ∈ waiting, ∃ u : Pdu, u.Written b

/-- The next unit that is read is the first one that waits. -/
theorem Delivers.readUnit (h : s.Delivers waiting) :
    s.pipe.readUnit = (waiting.head?, { s.pipe with outbound := waiting.tail.flatten }) := by
  cases waiting with
  | nil =>
    have hempty : s.pipe.outbound = [] := h.queue
    have hnone : front [] = .incomplete := rfl
    unfold Pipe.readUnit
    rw [hempty, hnone]
    exact congrArg (none, ·) (congrArg (fun outbound => { s.pipe with outbound }) hempty)
  | cons b waiting =>
    obtain ⟨u, hb⟩ := h.whole b List.mem_cons_self
    exact readUnit_unit hb h.queue

/-- Step: as long as it is read by units, what is read are the next units. -/
theorem Delivers.step (h : s.Delivers waiting) (hop : ∀ max, op ≠ .read max) :
    ∃ waiting', (s.step op).Delivers waiting' := by
  cases op with
  | write g data =>
    obtain ⟨hqueue, -⟩ := write_sends s.pipe g data
    refine ⟨waiting ++ s.pipe.sent g data, ?_, ?_, ?_⟩
    · simp only [Record.step, h.sent, List.append_assoc]
    · simp only [Record.step, hqueue, h.queue, List.flatten_append]
    · exact List.forall_mem_append.mpr ⟨h.whole, written_of_mem_sent _ _ _⟩
  | readUnit =>
    refine ⟨waiting.tail, ?_, ?_, fun b hb => h.whole b (List.mem_of_mem_tail hb)⟩
    · simp only [Record.step, h.readUnit, h.sent, List.append_assoc, List.append_cancel_left_eq]
      cases waiting <;> rfl
    · simp only [Record.step, h.readUnit]
  | read max => exact absurd rfl (hop max)
  | peek max => exact ⟨waiting, h⟩

/-! ### All operations -/

theorem SentBy.after (h : s.SentBy e) (ops : List Operation) : (s.after ops).SentBy e :=
  List.foldlRecOn ops Record.step h fun _ hs op _ => hs.step op

theorem Conserves.after (h : s.Conserves) (ops : List Operation) : (s.after ops).Conserves :=
  List.foldlRecOn ops Record.step h fun _ hs op _ => hs.step op

/-- A read that takes no notice of units may leave a part of one in the queue: with such a read, only
the bytes can be told. -/
theorem Delivers.after (h : s.Delivers waiting) {ops : List Operation}
    (hops : ∀ op ∈ ops, ∀ max, op ≠ .read max) : ∃ waiting', (s.after ops).Delivers waiting' := by
  refine List.foldlRecOn (motive := fun s => ∃ waiting, Delivers s waiting) ops Record.step
    ⟨waiting, h⟩ ?_
  rintro s ⟨waiting, hs⟩ op hop
  exact hs.step (hops op hop)

end Record

/-- **Answers are delivered once, whole and in order.** Whatever is done with a pipe, what was read
and what can still be peeked at are the bytes of all units that its endpoint sent. As long as it is
read by units, what was read are the first of these units, and the next one to be read is the one
that was sent next; there is none exactly when all that was sent has been read. -/
theorem delivers_in_order {p : Pipe} (hempty : p.outbound = []) (ops : List Operation) :
    let s := (Record.start p).after ops
    s.SentBy p.endpoint ∧
      s.taken.flatten ++ s.pipe.peek s.pipe.available = s.sent.flatten ∧
      ((∀ op ∈ ops, ∀ max, op ≠ .read max) →
        s.taken <+: s.sent ∧ s.pipe.readUnit.1 = s.sent[s.taken.length]? ∧
          (s.pipe.readUnit.1 = none ↔ s.taken = s.sent)) := by
  intro s
  have hsent : (Record.start p).SentBy p.endpoint := ⟨[], rfl, rfl⟩
  have hconserves : (Record.start p).Conserves := hempty
  refine ⟨hsent.after ops, ?_, fun hops => ?_⟩
  · rw [Pipe.peek, available, List.take_length]
    exact hconserves.after ops
  · have hstart : (Record.start p).Delivers [] := ⟨rfl, hempty, List.forall_mem_nil _⟩
    obtain ⟨waiting, hs⟩ := hstart.after hops
    have hnext : s.pipe.readUnit.1 = waiting.head? := congrArg Prod.fst hs.readUnit
    have hsplit : s.sent = s.taken ++ waiting := hs.sent
    rw [hnext, hsplit]
    refine ⟨List.prefix_append _ _, ?_, ?_⟩
    · rw [List.getElem?_append_right (Nat.le_refl _), Nat.sub_self, List.head?_eq_getElem?]
    · rw [List.head?_eq_none_iff, List.self_eq_append_right]

/-- The first bytes of a request, then its other bytes, one more request and a header that no unit
has, with reads before, in between and after. -/
def sampleOperations : List Operation :=
  [.write .new [5, 0, 0, 3, 16, 0, 0, 0, 24, 0], .readUnit,
    .write .new [0, 0, 1, 0, 0, 0, 0, 0, 0, 0, 7, 0, 2, 0,
      5, 0, 0, 3, 16, 0, 0, 0, 24, 0, 0, 0, 2, 0, 0, 0, 0, 0, 0, 0, 7, 0, 2, 0,
      5, 0, 19, 3, 16, 0, 0, 0, 3, 0, 0, 0, 1, 0, 0, 0], .peek 3, .readUnit]

/-- Both requests are answered by a fault, although the second write fails. The first fault was
read, and the second one is next. -/
theorem delivers_in_order_sampleOperations :
    let s := (Record.start samplePipe).after sampleOperations
    s.taken = [[5, 0, 3, 35, 16, 0, 0, 0, 32, 0, 0, 0, 1, 0, 0, 0,
      32, 0, 0, 0, 7, 0, 0, 0, 3, 0, 1, 28, 0, 0, 0, 0]] ∧
    s.taken <+: s.sent ∧
      s.pipe.readUnit.1 = some [5, 0, 3, 35, 16, 0, 0, 0, 32, 0, 0, 0, 2, 0, 0, 0,
        32, 0, 0, 0, 7, 0, 0, 0, 3, 0, 1, 28, 0, 0, 0, 0] := by
  intro s
  have hops : ∀ op ∈ sampleOperations, ∀ max, op ≠ .read max := by
    simp [sampleOperations]
  obtain ⟨-, -, hunits⟩ := delivers_in_order (p := samplePipe) rfl sampleOperations
  obtain ⟨hfirst, hnext, -⟩ := hunits hops
  refine ⟨by decide +kernel, hfirst, hnext.trans ?_⟩
  decide +kernel

end Pipe

end RemoteCall
