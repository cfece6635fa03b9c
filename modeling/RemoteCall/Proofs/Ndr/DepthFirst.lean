import Mathlib.Logic.Function.Iterate
import RemoteCall.Proofs.Ndr.Stream

/-! The bytes of parameter data, told from the values alone: items in a row, the fixed part of a value
first and then, depth first, all of what each of its pointers refers to. Writers that wait produce
the same. -/

namespace RemoteCall.Ndr

/-! ## Items -/

/-- What stands in a stream, with the padding in front of it. -/
inductive Item
  /-- Bytes at any place. -/
  | run (bs : List UInt8)
  /-- Bytes at an even place. -/
  | half (bs : List UInt8)
  /-- Bytes at a multiple of four. -/
  | word (bs : List UInt8)
  /-- The id of a pointer that is not null. -/
  | pointer
  deriving DecidableEq

namespace Item

def alignment : Item → Nat
  | run _ => 1
  | half _ => 2
  | word _ | pointer => 4

/-- What is written, when `id` is the next id of a pointer. -/
def bytes (id : UInt32) : Item → List UInt8
  | run bs | half bs | word bs => bs
  | pointer => dword id

/-- The next id of a pointer after the item. -/
def nextId (id : UInt32) : Item → UInt32
  | pointer => Cursor.followingId id
  | _ => id

end Item

/-- The bytes of items from a position on. -/
def render (position : Nat) (id : UInt32) : List Item → List UInt8
  | [] => []
  | i :: is =>
    let out := paddingBytes i.alignment position ++ i.bytes id
    out ++ render (position + out.length) (i.nextId id) is

/-- The next id of a pointer after items. -/
def idAfter (id : UInt32) (is : List Item) : UInt32 := is.foldl Item.nextId id

section Items

variable {position : Nat} {id : UInt32} {is js : List Item}

theorem render_append : render position id (is ++ js) =
    render position id is ++
      render (position + (render position id is).length) (idAfter id is) js := by
  induction is generalizing position id with
  | nil => rfl
  | cons i is ih =>
    simp only [List.cons_append, render, idAfter, List.foldl_cons, ih, List.append_assoc,
      List.length_append, Nat.add_assoc]

theorem idAfter_append : idAfter id (is ++ js) = idAfter (idAfter id is) js :=
  List.foldl_append

/-- Ids depend on the number of pointers only. -/
theorem idAfter_eq : idAfter id is = Cursor.followingId^[is.count .pointer] id := by
  induction is generalizing id with
  | nil => rfl
  | cons i is ih =>
    change idAfter (i.nextId id) is = _
    rw [ih]
    cases i <;> simp [Item.nextId, Function.iterate_succ_apply]

theorem Item.alignment_dvd (i : Item) : i.alignment ∣ 4 := by
  cases i with
  | run => exact ⟨4, rfl⟩
  | half => exact ⟨2, rfl⟩
  | word => exact Nat.dvd_refl 4
  | pointer => exact Nat.dvd_refl 4

theorem paddingBytes_mod {alignment : Nat} (h : alignment ∣ 4) (position : Nat) :
    paddingBytes alignment (position % 4) = paddingBytes alignment position := by
  unfold paddingBytes
  rw [Nat.mod_mod_of_dvd _ h]

/-- Of the position only its distance from a multiple of four matters. -/
theorem render_mod (position : Nat) (id : UInt32) (is : List Item) :
    render (position % 4) id is = render position id is := by
  induction is generalizing position id with
  | nil => rfl
  | cons i is ih =>
    simp only [render, paddingBytes_mod i.alignment_dvd]
    rw [← ih (position % 4 + _), Nat.mod_add_mod, ih]

end Items

/-! ## Layouts of values -/

namespace Value

mutual

/-- The fixed part. -/
def head : Value → List Item
  | .u8 n => [.run [n]]
  | .u16 n => [.half (ByteOrder.little.word16 n)]
  | .u32 n => [.word (dword n)]
  | .u64 n => [.word (ByteOrder.little.word64 n)]
  | .bytes bs => [.run bs]
  | .text t => [.word t.bytes]
  | .array items => .word (dword (countOf items.length)) :: headAll items
  | .record members => headAll members
  | .null => [.word (dword 0)]
  | .pointer _ => [.pointer]
  | .deferred _ => []
  | .unique target => .pointer :: (target.head ++ target.tail)
  | .construct inner => inner.head ++ inner.tail
  | .choice twice level arm => .word (dword level ++ if twice then dword level else []) :: arm.head

def headAll : List Value → List Item
  | [] => []
  | v :: vs => v.head ++ headAll vs

/-- What the pointers of the fixed part refer to, each with all that belongs to it. -/
def tail : Value → List Item
  | .array items => tailAll items
  | .record members => tailAll members
  | .pointer target => target.head ++ target.tail
  | .choice _ _ arm => arm.tail
  | _ => []

def tailAll : List Value → List Item
  | [] => []
  | v :: vs => v.tail ++ tailAll vs

end

/-- A construct: its fixed part, and then what its pointers refer to. -/
def whole (v : Value) : List Item := v.head ++ v.tail

mutual

/-- What the pointers of the fixed part refer to, in the order in which they are met. A pointer
parameter or a construct within the fixed part is complete in itself. -/
def targets : Value → List Value
  | .array items => targetsAll items
  | .record members => targetsAll members
  | .pointer target => [target]
  | .choice _ _ arm => arm.targets
  | _ => []

def targetsAll : List Value → List Value
  | [] => []
  | v :: vs => v.targets ++ targetsAll vs

end

mutual

theorem tail_eq : ∀ v : Value, v.tail = v.targets.flatMap whole
  | .array items => by simp only [tail, targets, tailAll_eq items]
  | .record members => by simp only [tail, targets, tailAll_eq members]
  | .pointer target => by simp only [tail, targets, List.flatMap_singleton, whole]
  | .choice _ _ arm => by simp only [tail, targets, tail_eq arm]
  | .u8 _ | .u16 _ | .u32 _ | .u64 _ | .bytes _ | .text _ | .null | .deferred _ | .unique _
  | .construct _ => by simp only [tail, targets, List.flatMap_nil]

theorem tailAll_eq : ∀ vs : List Value, tailAll vs = (targetsAll vs).flatMap whole
  | [] => by simp only [tailAll, targetsAll, List.flatMap_nil]
  | v :: vs => by simp only [tailAll, targetsAll, List.flatMap_append, tail_eq v, tailAll_eq vs]

end

/-- Depth first: all of one target comes before the next target. -/
theorem whole_eq (v : Value) : v.whole = v.head ++ v.targets.flatMap whole := by
  rw [whole, tail_eq]

mutual

/-- No pointer, however deep, is still to be bound. -/
def IsBound : Value → Prop
  | .array items => AreBound items
  | .record members => AreBound members
  | .pointer target => target.IsBound
  | .deferred _ => False
  | .unique target => target.IsBound
  | .construct inner => inner.IsBound
  | .choice _ _ arm => arm.IsBound
  | _ => True

def AreBound : List Value → Prop
  | [] => True
  | v :: vs => v.IsBound ∧ AreBound vs

end

end Value

/-! ## Writers -/

namespace Cursor

def render (c : Cursor) (is : List Item) : List UInt8 := Ndr.render c.length c.nextId is

/-- The cursor behind the items. -/
def past (c : Cursor) (is : List Item) : Cursor :=
  ⟨c.length + (c.render is).length, idAfter c.nextId is⟩

variable {c : Cursor} {is js : List Item}

theorem render_singleton (i : Item) :
    c.render [i] = paddingBytes i.alignment c.length ++ i.bytes c.nextId := List.append_nil _

theorem render_append : c.render (is ++ js) = c.render is ++ (c.past is).render js :=
  Ndr.render_append

theorem past_append : c.past (is ++ js) = (c.past is).past js := by
  simp only [past, render_append, List.length_append, idAfter_append, Nat.add_assoc]

end Cursor

/-- The writer produces the items. -/
def Lays (w : Writer) (is : List Item) : Prop := ∀ c, w c = .ok (c.render is, c.past is)

/-- The fixed part is `head`, and what waits produces `tail`. -/
def Places (w : PartWriter) (head tail : List Item) : Prop :=
  ∀ c, ∃ ws, w c = .ok ⟨c.render head, ws, c.past head⟩ ∧ Lays (sequence ws) tail

section Writers

variable {w w' : PartWriter} {ws ws' : List Writer} {is js head head' tail tail' : List Item}

theorem sequence_append (ws ws' : List Writer) (c : Cursor) :
    sequence (ws ++ ws') c = (do
      let (a, c) ← sequence ws c
      let (b, c) ← sequence ws' c
      return (a ++ b, c)) := by
  induction ws generalizing c with
  | nil =>
    change sequence ws' c = sequence ws' c >>= fun written => .ok ([] ++ written.1, written.2)
    cases sequence ws' c <;> rfl
  | cons w ws ih =>
    simp only [List.cons_append, sequence, ih, bind_assoc, pure_bind, List.append_assoc]

theorem lays_nil : Lays (sequence []) [] := fun _ => rfl

theorem Lays.singleton {w : Writer} (h : Lays w is) : Lays (sequence [w]) is := by
  intro c
  rw [sequence, h c]
  change Except.ok (c.render is ++ [], c.past is) = _
  rw [List.append_nil]

theorem Lays.append (h : Lays (sequence ws) is) (h' : Lays (sequence ws') js) :
    Lays (sequence (ws ++ ws')) (is ++ js) := by
  intro c
  rw [sequence_append, h c]
  change (sequence ws' (c.past is) >>= fun written => _) = _
  rw [h' (c.past is), Cursor.render_append, Cursor.past_append]
  rfl

theorem Places.append (h : Places w head tail) (h' : Places w' head' tail') :
    Places (w.append w') (head ++ head') (tail ++ tail') := by
  intro c
  obtain ⟨ws, hw, hws⟩ := h c
  obtain ⟨ws', hw', hws'⟩ := h' (c.past head)
  refine ⟨ws ++ ws', ?_, hws.append hws'⟩
  unfold PartWriter.append
  rw [hw, Cursor.render_append, Cursor.past_append]
  change (w' (c.past head) >>= fun part => _) = _
  rw [hw']
  rfl

/-- The fixed part comes before what waits. -/
theorem Places.complete (h : Places w head tail) : Lays (complete w) (head ++ tail) := by
  intro c
  obtain ⟨ws, hw, hws⟩ := h c
  unfold Ndr.complete
  rw [hw, Cursor.render_append, Cursor.past_append]
  change (sequence ws (c.past head) >>= fun written => _) = _
  rw [hws]
  rfl

theorem places_nil : Places (Value.fixedAll []) [] [] := by
  intro c
  refine ⟨[], ?_, lays_nil⟩
  change Except.ok (Part.mk (paddingBytes 1 c.length ++ []) []
    ⟨c.length + (paddingBytes 1 c.length ++ []).length, c.nextId⟩) = _
  rw [paddingBytes_one]
  rfl

/-- What is put does not depend on ids. -/
theorem places_put (i : Item) {bs : List UInt8} (hbytes : ∀ id, i.bytes id = bs)
    (hid : ∀ id, i.nextId id = id) : Places (put i.alignment bs) [i] [] := by
  intro c
  refine ⟨[], ?_, lays_nil⟩
  have hpast : c.past [i] = ⟨c.length + (c.render [i]).length, c.nextId⟩ := by
    simp only [Cursor.past, idAfter, List.foldl_cons, List.foldl_nil, hid]
  rw [hpast, Cursor.render_singleton, hbytes]
  rfl

theorem putReferentId_eq (c : Cursor) : putReferentId c = (c.render [.pointer], c.past [.pointer]) := by
  simp only [Cursor.past, Cursor.render_singleton]
  rfl

theorem Lays.embed (h : Lays (Ndr.complete w) is) : Places (embed w) [.pointer] is := by
  intro c
  refine ⟨[Ndr.complete w], ?_, h.singleton⟩
  simp only [Ndr.embed, putReferentId_eq]

theorem Lays.refer (h : Lays (Ndr.complete w) is) : Places (refer w) (.pointer :: is) [] := by
  intro c
  refine ⟨[], ?_, lays_nil⟩
  rw [← List.singleton_append, Cursor.render_append, Cursor.past_append]
  simp only [Ndr.refer, putReferentId_eq]
  rw [h]
  rfl

theorem Lays.part {w : Writer} (h : Lays w is) : Places w.part is [] := by
  intro c
  refine ⟨[], ?_, lays_nil⟩
  unfold Writer.part
  rw [h c]
  rfl

end Writers

namespace Value

mutual

/-- A bound value puts its fixed part, and leaves waiting what its pointers refer to. -/
theorem places : ∀ v : Value, v.IsBound → Places v.fixed v.head v.tail
  | .u8 n, _ => places_put (.run [n]) (fun _ => rfl) fun _ => rfl
  | .u16 n, _ => places_put (.half (ByteOrder.little.word16 n)) (fun _ => rfl) fun _ => rfl
  | .u32 n, _ => places_put (.word (dword n)) (fun _ => rfl) fun _ => rfl
  | .u64 n, _ => places_put (.word (ByteOrder.little.word64 n)) (fun _ => rfl) fun _ => rfl
  | .bytes bs, _ => places_put (.run bs) (fun _ => rfl) fun _ => rfl
  | .text t, _ => places_put (.word t.bytes) (fun _ => rfl) fun _ => rfl
  | .array items, h =>
    (places_put (.word (dword (countOf items.length))) (fun _ => rfl) fun _ => rfl).append
      (placesAll items h)
  | .record members, h => placesAll members h
  | .null, _ => places_put (.word (dword 0)) (fun _ => rfl) fun _ => rfl
  | .pointer target, h => (places target h).complete.embed
  | .unique target, h => (places target h).complete.refer
  | .construct inner, h => (places inner h).complete.part
  | .choice twice level arm, h =>
    (places_put (.word (dword level ++ if twice then dword level else [])) (fun _ => rfl)
      fun _ => rfl).append (places arm h)

theorem placesAll : ∀ vs : List Value, AreBound vs →
    Places (fixedAll vs) (headAll vs) (tailAll vs)
  | [], _ => places_nil
  | v :: vs, h => (places v h.1).append (placesAll vs h.2)

end

end Value

/-! ## Ids -/

/-- The id of a pointer by its number, from zero on. -/
def pointerId (j : Nat) : UInt32 := Cursor.followingId^[j] firstReferentId

theorem pointerId_succ (j : Nat) : pointerId (j + 1) = Cursor.followingId (pointerId j) :=
  Function.iterate_succ_apply' _ _ _

/-- Ids do not wrap as long as they fit. -/
theorem toNat_pointerId {j : Nat} (h : j < 2 ^ 30 - 2 ^ 15) :
    (pointerId j).toNat = 0x00020000 + 4 * j := by
  induction j with
  | zero => rfl
  | succ j ih =>
    have hj := ih (by omega)
    have hnext : (pointerId j + 4).toNat = 0x00020000 + 4 * (j + 1) := by
      rw [UInt32.toNat_add, hj]
      simp only [UInt32.reduceToNat]
      omega
    have hlarge : ¬ pointerId j + 4 < firstReferentId := by
      rw [UInt32.lt_iff_toNat_lt, hnext]
      simp only [firstReferentId, UInt32.reduceToNat]
      omega
    rw [pointerId_succ, Cursor.followingId]
    simp only [hlarge, if_false, hnext]

theorem pointerId_ne_zero (j : Nat) : pointerId j ≠ 0 := by
  cases j with
  | zero => decide
  | succ j =>
    rw [pointerId_succ]
    exact Cursor.followingId_ne_zero _

theorem idAfter_first (is : List Item) :
    idAfter firstReferentId is = pointerId (is.count .pointer) := idAfter_eq

/-- A pointer is written as its id, behind what comes before it. -/
theorem render_pointer (is js : List Item) :
    ∃ rest, render 0 firstReferentId (is ++ .pointer :: js) =
      render 0 firstReferentId is ++ paddingBytes 4 (render 0 firstReferentId is).length ++
        dword (pointerId (is.count .pointer)) ++ rest := by
  rw [render_append, idAfter_first, Nat.zero_add, render, ← List.append_assoc, ← List.append_assoc]
  exact ⟨_, rfl⟩

/-! ## Streams -/

namespace Encoder

/-- The stream consists of the items of `heads`, and what waits produces those of `tails`. -/
structure Stands (e : Encoder) (heads tails : List Item) : Prop where
  bytes : e.bytes = render 0 firstReferentId heads
  cursor : e.cursor = Cursor.start.past heads
  waiting : Lays (sequence e.waiting) tails

variable {e : Encoder} {v : Value} {heads tails : List Item}

theorem stands_empty : empty.Stands [] [] := ⟨rfl, rfl, lays_nil⟩

theorem Stands.length (h : e.Stands heads tails) : e.cursor.length = e.length := by
  rw [h.cursor, Encoder.length, h.bytes]
  exact Nat.zero_add _

/-- Step: the fixed part is added, and what its pointers refer to waits behind all that waits. -/
theorem Stands.add (h : e.Stands heads tails) (hv : v.IsBound) :
    ∃ e', e.add v = .ok e' ∧ e'.Stands (heads ++ v.head) (tails ++ v.tail) := by
  obtain ⟨ws, hfixed, hws⟩ := v.places hv e.cursor
  refine ⟨⟨e.bytes ++ e.cursor.render v.head, e.waiting ++ ws, e.cursor.past v.head⟩, ?_, ?_, ?_,
    h.waiting.append hws⟩
  · unfold Encoder.add
    rw [hfixed]
    rfl
  · rw [h.bytes, h.cursor]
    exact (Cursor.render_append (c := .start)).symm
  · rw [h.cursor]
    exact Cursor.past_append.symm

/-- Run: any values are added. -/
theorem Stands.addAll {vs : List Value} (h : e.Stands heads tails) (hvs : ∀ v ∈ vs, v.IsBound) :
    ∃ lengths e', e.addAll vs = .ok (lengths, e') ∧
      e'.Stands (heads ++ Value.headAll vs) (tails ++ Value.tailAll vs) := by
  induction vs generalizing e heads tails with
  | nil => exact ⟨[], e, rfl, by simpa [Value.headAll, Value.tailAll] using h⟩
  | cons v vs ih =>
    obtain ⟨hv, hvs⟩ := List.forall_mem_cons.mp hvs
    obtain ⟨e₁, hadd, h₁⟩ := h.add hv
    obtain ⟨lengths, e₂, hall, h₂⟩ := ih h₁ hvs
    refine ⟨e₁.length :: lengths, e₂, ?_, by simpa [Value.headAll, Value.tailAll] using h₂⟩
    rw [Encoder.addAll, hadd]
    change (e₁.addAll vs >>= fun last => _) = _
    rw [hall]
    rfl

theorem Stands.finish (h : e.Stands heads tails) :
    e.finish = .ok (render 0 firstReferentId (heads ++ tails)) := by
  unfold Encoder.finish
  rw [h.waiting, h.cursor, h.bytes]
  exact congrArg Except.ok (Cursor.render_append (c := .start)).symm

/-- A construct leaves nothing waiting but what waited before. -/
theorem add_construct (hv : v.IsBound) (hlength : e.cursor.length = e.length) :
    e.add (.construct v) = .ok ⟨e.bytes ++ render (e.length % 4) e.cursor.nextId v.whole, e.waiting,
      e.cursor.past v.whole⟩ := by
  have hwrite : v.write e.cursor = _ := (v.places hv).complete e.cursor
  rw [render_mod, ← hlength, ← List.append_nil e.waiting]
  change (v.write e.cursor >>= fun written => _) >>= _ = _
  rw [hwrite]
  rfl

end Encoder

open Encoder in
/-- **Constructs are laid out depth first.** The items of a construct are its fixed part and then,
target by target, the items of each construct that it points to. They are all that a construct adds
to a stream, at its end, and they depend on the stream only through its length modulo four and the
next id; what waited goes on waiting. A whole stream is made of the fixed parts of its values and of
what still waited, and in it each pointer that is not null stands as the id of its number, counted
from zero. These ids go up in steps of four as long as they fit, so no two of them are equal that
far, and none is ever null. -/
theorem constructs_depthFirst :
    (∀ v : Value, v.whole = v.head ++ v.targets.flatMap Value.whole) ∧
    (∀ (e : Encoder) (v : Value), e.cursor.length = e.length → v.IsBound → ∃ cursor,
      e.add (.construct v) =
        .ok ⟨e.bytes ++ render (e.length % 4) e.cursor.nextId v.whole, e.waiting, cursor⟩) ∧
    (∀ vs : List Value, (∀ v ∈ vs, v.IsBound) → ∃ lengths e bytes,
      empty.addAll vs = .ok (lengths, e) ∧ e.cursor.length = e.length ∧ e.finish = .ok bytes ∧
      bytes = render 0 firstReferentId (Value.headAll vs ++ Value.tailAll vs) ∧
      ∀ is js, Value.headAll vs ++ Value.tailAll vs = is ++ .pointer :: js →
        render 0 firstReferentId is ++ paddingBytes 4 (render 0 firstReferentId is).length ++
          dword (pointerId (is.count .pointer)) <+: bytes) ∧
    (∀ j, j < 2 ^ 30 - 2 ^ 15 → (pointerId j).toNat = 0x00020000 + 4 * j) ∧
    (∀ i j, i < 2 ^ 30 - 2 ^ 15 → j < 2 ^ 30 - 2 ^ 15 → pointerId i = pointerId j → i = j) ∧
    ∀ j, pointerId j ≠ 0 := by
  refine ⟨Value.whole_eq, fun e v hlength hv => ⟨_, add_construct hv hlength⟩, fun vs hvs => ?_,
    fun j => toNat_pointerId, fun i j hi hj hij => ?_, pointerId_ne_zero⟩
  · obtain ⟨lengths, e, hadd, hstands⟩ := stands_empty.addAll hvs
    refine ⟨lengths, e, _, hadd, hstands.length, hstands.finish, rfl, fun is js his => ?_⟩
    obtain ⟨rest, hrest⟩ := render_pointer is js
    exact ⟨rest, by rw [← hrest, ← his]; rfl⟩
  · have hi' := toNat_pointerId hi
    have hj' := toNat_pointerId hj
    rw [hij] at hi'
    omega

/-- A pointer whose target has a pointer, a null pointer, and one more pointer. -/
def sampleNest : Value :=
  .record [.pointer (.record [.pointer (.u8 1), .u16 2]), .null, .pointer (.u32 3)]

/-- A stream in which the target of a first pointer waits. -/
def sampleEncoder : Encoder := ⟨[9, 0, 0, 0, 0, 0, 2, 0], [(Value.u8 7).write], ⟨8, 0x00020004⟩⟩

/-- The number behind the inner pointer comes before the target of the last one. -/
theorem constructs_depthFirst_sampleNest :
    sampleNest.IsBound ∧
    (∃ cursor, sampleEncoder.add (.construct sampleNest) =
      .ok ⟨sampleEncoder.bytes ++ [4, 0, 2, 0, 0, 0, 0, 0, 8, 0, 2, 0, 12, 0, 2, 0, 2, 0, 1, 0,
        3, 0, 0, 0], sampleEncoder.waiting, cursor⟩) ∧
    (∃ lengths e, Encoder.empty.addAll [.u8 9, .pointer (.u8 7), .construct sampleNest]
        = .ok (lengths, e) ∧
      e.finish = .ok [9, 0, 0, 0, 0, 0, 2, 0, 4, 0, 2, 0, 0, 0, 0, 0, 8, 0, 2, 0, 12, 0, 2, 0,
        2, 0, 1, 0, 3, 0, 0, 0, 7]) ∧
    (pointerId 3).toNat = 0x0002000c := by
  have hbound : sampleNest.IsBound := ⟨⟨trivial, trivial, trivial⟩, trivial, trivial, trivial⟩
  obtain ⟨-, hadd, hstream, hids, -⟩ := constructs_depthFirst
  obtain ⟨cursor, hcursor⟩ := hadd sampleEncoder sampleNest rfl hbound
  obtain ⟨lengths, e, bytes, hall, -, hfinish, rfl, -⟩ :=
    hstream [.u8 9, .pointer (.u8 7), .construct sampleNest] (by simp [Value.IsBound, hbound])
  exact ⟨hbound, ⟨cursor, hcursor⟩, ⟨lengths, e, hall, hfinish⟩, hids 3 (by decide)⟩

end RemoteCall.Ndr
