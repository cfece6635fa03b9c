import RemoteCall.Proofs.Ndr.DepthFirst

/-! Two ways to flush. Values that are added to a stream one by one leave their targets waiting
until the stream is finished; the record of them, added as a construct, brings its targets along.
Both make the same stream (`flushes_agree`). -/

namespace RemoteCall.Ndr

namespace Encoder

/-- The stream with a fixed part behind it. -/
def extend (e : Encoder) (part : Part) : Encoder :=
  ⟨e.bytes ++ part.bytes, e.waiting ++ part.waiting, part.cursor⟩

theorem add_eq (e : Encoder) (v : Value) : e.add v = (v.fixed e.cursor).map e.extend := by
  unfold add
  cases v.fixed e.cursor <;> rfl

theorem extend_extend (e : Encoder) (a b : Part) :
    (e.extend a).extend b = e.extend ⟨a.bytes ++ b.bytes, a.waiting ++ b.waiting, b.cursor⟩ := by
  simp only [extend, List.append_assoc]

theorem fixedAll_nil (c : Cursor) : Value.fixedAll [] c = .ok ⟨[], [], c⟩ := by
  change Except.ok (Part.mk (paddingBytes 1 c.length ++ []) []
    ⟨c.length + (paddingBytes 1 c.length ++ []).length, c.nextId⟩) = _
  rw [paddingBytes_one]
  rfl

/-- Step: adding to what was added adds to the part. -/
theorem map_extend_append (e : Encoder) (first second : PartWriter) :
    (do let e' ← (first e.cursor).map e.extend; (second e'.cursor).map e'.extend) =
      ((first.append second) e.cursor).map e.extend := by
  unfold PartWriter.append
  cases hfirst : first e.cursor with
  | error x => rfl
  | ok a =>
    change (second a.cursor).map (e.extend a).extend = _
    cases hsecond : second a.cursor with
    | error x =>
      change _ = Except.map e.extend (second a.cursor >>= _)
      rw [hsecond]
      rfl
    | ok b =>
      change _ = Except.map e.extend (second a.cursor >>= _)
      rw [hsecond]
      exact congrArg Except.ok (extend_extend e a b)

/-- Run: values one by one leave the stream as the record of them does. -/
theorem map_addAll (e : Encoder) (vs : List Value) :
    (e.addAll vs).map Prod.snd = e.add (.record vs) := by
  induction vs generalizing e with
  | nil =>
    rw [add_eq, Value.fixed, fixedAll_nil]
    change Except.ok e = .ok ⟨e.bytes ++ [], e.waiting ++ [], e.cursor⟩
    rw [List.append_nil, List.append_nil]
  | cons v vs ih =>
    have hrecord : (Value.record (v :: vs)).fixed = v.fixed.append (Value.record vs).fixed := rfl
    rw [add_eq, hrecord, ← map_extend_append, ← add_eq, addAll]
    cases hadd : e.add v with
    | error x => rfl
    | ok e' =>
      change (e'.addAll vs >>= _).map Prod.snd = ((Value.record vs).fixed e'.cursor).map e'.extend
      rw [← add_eq, ← ih]
      cases e'.addAll vs <;> rfl

/-- Where nothing waits, a value and its construct differ only in when the targets are written. -/
theorem finish_construct (bs : List UInt8) (c : Cursor) (v : Value) :
    (Encoder.mk bs [] c).add (.construct v) >>= finish =
      (Encoder.mk bs [] c).add v >>= finish := by
  have hconstruct : (Value.construct v).fixed c = (do
      let part ← v.fixed c
      let below ← sequence part.waiting part.cursor
      return ⟨part.bytes ++ below.1, [], below.2⟩) := by
    change (complete v.fixed).part c = _
    unfold Writer.part complete
    cases v.fixed c with
    | error x => rfl
    | ok part =>
      change (sequence part.waiting part.cursor >>= _) >>= _ =
        sequence part.waiting part.cursor >>= _
      cases sequence part.waiting part.cursor <;> rfl
  rw [add_eq, add_eq, hconstruct]
  cases hfixed : v.fixed c with
  | error x => rfl
  | ok part =>
    change ((sequence part.waiting part.cursor >>= _).map _) >>= _ =
      (sequence part.waiting part.cursor >>= _)
    cases hbelow : sequence part.waiting part.cursor with
    | error x => rfl
    | ok below =>
      change Except.ok ((bs ++ (part.bytes ++ below.1)) ++ []) = .ok ((bs ++ part.bytes) ++ below.1)
      rw [List.append_nil, List.append_assoc]

end Encoder

theorem areBound_iff {vs : List Value} : Value.AreBound vs ↔ ∀ v ∈ vs, v.IsBound := by
  induction vs with
  | nil => simp [Value.AreBound]
  | cons v vs ih => rw [Value.AreBound, ih, List.forall_mem_cons]

open Encoder in
/-- **Two ways to flush make one stream.** Values that are added one by one to an empty stream,
which is finished then, give what the record of them gives as a construct: the same bytes, ids
included, or the same error. When all their pointers are bound there is no error. The construct
leaves nothing waiting, and its bytes are the fixed parts of all values and then all that they point
to. -/
theorem flushes_agree (vs : List Value) :
    (empty.addAll vs >>= fun added => added.2.finish) =
      (empty.add (.construct (.record vs)) >>= finish) ∧
    ((∀ v ∈ vs, v.IsBound) → ∃ lengths e e', empty.addAll vs = .ok (lengths, e) ∧
      empty.add (.construct (.record vs)) = .ok e' ∧ e'.waiting = [] ∧
      e.finish = .ok e'.bytes ∧ e'.finish = .ok e'.bytes ∧
      e'.bytes = render 0 firstReferentId (Value.headAll vs ++ Value.tailAll vs)) := by
  refine ⟨?_, fun hvs => ?_⟩
  · have hall : (empty.addAll vs >>= fun added => added.2.finish) =
        ((empty.addAll vs).map Prod.snd >>= finish) := by
      cases empty.addAll vs <;> rfl
    rw [hall, map_addAll]
    exact (finish_construct [] .start (.record vs)).symm
  · obtain ⟨lengths, e, hadd, hstands⟩ := stands_empty.addAll hvs
    have hconstruct := add_construct (e := empty) (v := .record vs) (areBound_iff.mpr hvs) rfl
    refine ⟨lengths, e, _, hadd, hconstruct, rfl, hstands.finish, ?_, rfl⟩
    exact congrArg Except.ok (List.append_nil _)

/-- What a waiting target points to comes before the next target. -/
theorem flushes_agree_sampleNest :
    ∃ lengths e e', Encoder.empty.addAll [.u8 9, sampleNest, .pointer (.u8 7)] = .ok (lengths, e) ∧
      Encoder.empty.add (.construct (.record [.u8 9, sampleNest, .pointer (.u8 7)])) = .ok e' ∧
      e.finish = .ok e'.bytes ∧
      e'.bytes = [9, 0, 0, 0, 0, 0, 2, 0, 0, 0, 0, 0, 4, 0, 2, 0, 8, 0, 2, 0, 12, 0, 2, 0, 2, 0,
        1, 0, 3, 0, 0, 0, 7] := by
  obtain ⟨lengths, e, e', hadd, hconstruct, -, hfinish, -, hbytes⟩ :=
    (flushes_agree [.u8 9, sampleNest, .pointer (.u8 7)]).2
      (by simp [Value.IsBound, Value.AreBound, sampleNest])
  exact ⟨lengths, e, e', hadd, hconstruct, hfinish, hbytes⟩

end RemoteCall.Ndr
