import Mathlib.Data.List.Induction
import Mathlib.Data.List.Nodup
import RemoteCall.Proofs.Pipe.Paths
import RemoteCall.Proofs.Stream.Writes

/-! The instances of pipes that a host has opened, and the table of those that are still open
(`PipeHost.instances_kept`). An instance can be used by whoever holds it, also after it was closed,
and all share one allocator of groups. Still, what becomes of an instance depends on what is done
with it, and on nothing that is done with another (`PipeHost.find?_performAll`). -/

namespace RemoteCall

namespace Pipe

/-- What changes a pipe, of all that can be done by whoever holds it. -/
inductive Use
  | write (data : List UInt8)
  | transceive (data : List UInt8) (max : Nat)
  | read (max : Nat)
  | readUnit
  | discard
  deriving DecidableEq

def use (p : Pipe) (g : GroupAllocator) : Use → Pipe × GroupAllocator
  | .write data => (p.write g data).2
  | .transceive data max => (p.transceive g data max).2
  | .read max => ((p.read max).2, g)
  | .readUnit => (p.readUnit.2, g)
  | .discard => (p.discard, g)

/-- Several uses in turn, each with the allocator as it is then. -/
def useAll (p : Pipe) (uses : List (GroupAllocator × Use)) : Pipe :=
  uses.foldl (fun p gu => (p.use gu.1 gu.2).1) p

theorem write_id (p : Pipe) (g : GroupAllocator) (data : List UInt8) :
    (p.write g data).2.1.id = p.id := by
  by_cases hlong : data.length > p.maxMessageSize
  · rw [write, if_pos hlong]
  · obtain ⟨us, framing, hframes⟩ := exists_frames (p.inbound ++ data)
    obtain ⟨inbound, hwrite, -⟩ := write_frames (Nat.not_lt.mp hlong) hframes g
    rw [hwrite]
    rfl

/-- A pipe keeps its number. -/
theorem use_id (p : Pipe) (g : GroupAllocator) (u : Use) : (p.use g u).1.id = p.id := by
  cases u with
  | write data => exact p.write_id g data
  | transceive data max =>
    have hid := p.write_id g data
    change (p.transceive g data max).2.1.id = p.id
    unfold transceive
    cases hwrite : p.write g data with
    | mk result rest =>
      rw [hwrite] at hid
      cases result <;> exact hid
  | read max => rfl
  | readUnit =>
    change p.readUnit.2.id = p.id
    unfold readUnit
    split <;> rfl
  | discard => rfl

end Pipe

/-- What becomes of an instance that is closed. -/
def Instance.close (i : Instance) : Instance := ⟨i.pipe.discard, false⟩

theorem Instance.id_close {id : Nat} (i : Instance) (hi : i.pipe.id = id) : i.close.pipe.id = id :=
  hi

namespace PipeManager

variable {m : PipeManager} {id j : Nat} {i : Instance} {p : Pipe} {path : String}
  {f : Instance → Instance}

/-! ## Looking instances up -/

theorem id_of_find? (h : m.find? id = some i) : i.pipe.id = id := by
  have hid := List.find?_some h
  exact beq_iff_eq.mp hid

/-- What keeps the number of one instance keeps all numbers. -/
theorem id_modified (hf : ∀ i, i.pipe.id = id → (f i).pipe.id = id) (i : Instance) :
    (if i.pipe.id = id then f i else i).pipe.id = i.pipe.id := by
  by_cases hi : i.pipe.id = id
  · rw [if_pos hi, hf i hi, hi]
  · rw [if_neg hi]

theorem find?_modify (hf : ∀ i, i.pipe.id = id → (f i).pipe.id = id) :
    (m.modify id f).find? j = (m.find? j).map fun i => if i.pipe.id = id then f i else i := by
  unfold find? modify
  rw [List.find?_map]
  simp only [Function.comp_def, id_modified hf]

theorem find?_modify_self (hf : ∀ i, i.pipe.id = id → (f i).pipe.id = id)
    (hi : m.find? id = some i) : (m.modify id f).find? id = some (f i) := by
  rw [find?_modify hf, hi, Option.map_some, if_pos (id_of_find? hi)]

theorem find?_modify_ne (hf : ∀ i, i.pipe.id = id → (f i).pipe.id = id) (hj : j ≠ id) :
    (m.modify id f).find? j = m.find? j := by
  rw [find?_modify hf]
  cases hi : m.find? j with
  | none => rfl
  | some i => rw [Option.map_some, if_neg (id_of_find? hi ▸ hj)]

theorem find?_setPipe_self (hi : m.find? p.id = some i) :
    (m.setPipe p).find? p.id = some { i with pipe := p } :=
  find?_modify_self (fun _ _ => rfl) hi

theorem find?_setPipe_ne (hj : j ≠ p.id) : (m.setPipe p).find? j = m.find? j :=
  find?_modify_ne (fun _ _ => rfl) hj

theorem isOpen_iff : m.isOpen id = true ↔ ∃ p, m.find? id = some ⟨p, true⟩ := by
  rw [isOpen, Option.any_eq_true]
  constructor
  · rintro ⟨⟨p, _⟩, hi, rfl⟩
    exact ⟨p, hi⟩
  · rintro ⟨p, hp⟩
    exact ⟨⟨p, true⟩, hp, rfl⟩

/-! ## Opening -/

theorem openPipe_of_ok (h : (m.openPipe path).1 = .ok p) :
    p.id = m.instances.length + 1 ∧
      (m.openPipe path).2 = { m with instances := m.instances ++ [⟨p, true⟩] } := by
  unfold openPipe at h ⊢
  dsimp only at h ⊢
  split at h
  · cases h
  · cases h
    exact ⟨rfl, rfl⟩

/-- An open that fails leaves everything as it is. -/
theorem openPipe_of_error {err : Error} (h : (m.openPipe path).1 = .error err) :
    (m.openPipe path).2 = m := by
  unfold openPipe at h ⊢
  dsimp only at h ⊢
  split at h
  · rfl
  · cases h

/-- An instance that is there is the same after an open. -/
theorem find?_openPipe (hi : m.find? j = some i) : (m.openPipe path).2.find? j = some i := by
  cases hopen : (m.openPipe path).1 with
  | error err => rw [openPipe_of_error hopen, hi]
  | ok p =>
    rw [(openPipe_of_ok hopen).2, find?, List.find?_append, ← find?, hi]
    rfl

/-! ## Numbers -/

/-- The numbers of all instances, in the order in which they were opened. -/
def ids (m : PipeManager) : List Nat := m.instances.map (·.pipe.id)

theorem length_ids (m : PipeManager) : m.ids.length = m.instances.length := List.length_map _

theorem ids_modify (hf : ∀ i, i.pipe.id = id → (f i).pipe.id = id) :
    (m.modify id f).ids = m.ids := by
  unfold ids modify
  simp only [List.map_map, Function.comp_def, id_modified hf]

theorem ids_closePipe (m : PipeManager) (id : Nat) : (m.closePipe id).2.ids = m.ids := by
  unfold closePipe
  split
  · exact ids_modify Instance.id_close
  · rfl

/-- The instances have the numbers from 1 on, in order. -/
def Numbered (m : PipeManager) : Prop := m.ids = List.range' 1 m.instances.length

namespace Numbered

theorem of_ids_eq (h : m.Numbered) {m' : PipeManager} (hids : m'.ids = m.ids) : m'.Numbered := by
  have hlength : m'.instances.length = m.instances.length := by
    rw [← length_ids, hids, length_ids]
  rw [Numbered, hids, hlength]
  exact h

theorem of_append (h : m.Numbered) {m' : PipeManager} (hid : i.pipe.id = m.instances.length + 1)
    (hafter : m'.instances = m.instances ++ [i]) : m'.Numbered := by
  have hids : m'.ids = m.ids ++ [i.pipe.id] := by
    rw [ids, hafter, List.map_append]
    rfl
  rw [Numbered, hids, h, hid, hafter, List.length_append, List.length_singleton,
    List.range'_concat, Nat.one_mul, Nat.add_comm 1]

theorem nodup_ids (h : m.Numbered) : m.ids.Nodup := by
  rw [h]
  exact List.nodup_range'

theorem find?_of_mem (h : m.Numbered) (hi : i ∈ m.instances) : m.find? i.pipe.id = some i := by
  cases hfind : m.find? i.pipe.id with
  | none => exact absurd (List.find?_eq_none.mp hfind i hi) (not_not.mpr (beq_self_eq_true _))
  | some i' =>
    have hsame := List.inj_on_of_nodup_map h.nodup_ids (List.mem_of_find?_eq_some hfind) hi
      (id_of_find? hfind)
    rw [hsame]

/-- The table has the numbers of the instances that are open. -/
theorem mem_openIds_iff (h : m.Numbered) :
    id ∈ m.openIds ↔ ∃ p, m.find? id = some ⟨p, true⟩ := by
  simp only [openIds, List.mem_map, List.mem_filter]
  constructor
  · rintro ⟨⟨p, _⟩, ⟨hmem, rfl⟩, rfl⟩
    exact ⟨p, h.find?_of_mem hmem⟩
  · rintro ⟨p, hp⟩
    exact ⟨⟨p, true⟩, ⟨List.mem_of_find?_eq_some hp, rfl⟩, id_of_find? hp⟩

theorem nodup_openIds (h : m.Numbered) : m.openIds.Nodup :=
  (List.filter_sublist.map _).nodup h.nodup_ids

end Numbered

/-! ## Closing -/

theorem closePipe_fst (m : PipeManager) (id : Nat) : (m.closePipe id).1 = m.isOpen id := by
  unfold closePipe
  cases m.isOpen id <;> rfl

theorem closePipe_of_isOpen (h : m.isOpen id = true) :
    m.closePipe id = (true, m.modify id Instance.close) := if_pos h

theorem closePipe_of_not_isOpen (h : ¬m.isOpen id = true) : m.closePipe id = (false, m) := if_neg h

theorem find?_closePipe_self (hi : m.find? id = some i) :
    (m.closePipe id).2.find? id = some (if i.isOpen then i.close else i) := by
  have hopen : m.isOpen id = i.isOpen := by rw [isOpen, hi, Option.any_some]
  cases hisOpen : i.isOpen with
  | true =>
    rw [closePipe_of_isOpen (hopen.trans hisOpen)]
    exact find?_modify_self Instance.id_close hi
  | false =>
    rw [closePipe_of_not_isOpen (by rw [hopen, hisOpen]; exact Bool.false_ne_true)]
    exact hi

theorem find?_closePipe_ne (hj : j ≠ id) : (m.closePipe id).2.find? j = m.find? j := by
  unfold closePipe
  split
  · exact find?_modify_ne Instance.id_close hj
  · rfl

/-- To close a number tells whether it is in the table, takes it and no other out of it, and leaves
nothing in the queues of its pipe. -/
structure Closes (m : PipeManager) (id : Nat) : Prop where
  tells : (m.closePipe id).1 = true ↔ id ∈ m.openIds
  removes : (m.closePipe id).2.openIds = m.openIds.filter (· ≠ id)
  empties : ∀ p, m.find? id = some ⟨p, true⟩ →
    (m.closePipe id).2.find? id = some ⟨{ p with inbound := [], outbound := [] }, false⟩
  others : ∀ j, j ≠ id → (m.closePipe id).2.find? j = m.find? j
  unopened : id ∉ m.openIds → (m.closePipe id).2 = m

/-- Of the instances that are open, all but one are still open after it was closed. -/
theorem openIds_modify_close (m : PipeManager) (id : Nat) :
    (m.modify id Instance.close).openIds = m.openIds.filter (· ≠ id) := by
  have hopen : ∀ i : Instance, (if i.pipe.id = id then i.close else i).isOpen =
      (decide (i.pipe.id ≠ id) && i.isOpen) := by
    intro i
    by_cases hi : i.pipe.id = id
    · rw [if_pos hi, decide_eq_false (not_not.mpr hi), Bool.false_and]
      rfl
    · rw [if_neg hi, decide_eq_true hi, Bool.true_and]
  unfold openIds modify
  simp only [List.filter_map, List.map_map, Function.comp_def, hopen, List.filter_filter,
    id_modified Instance.id_close]

theorem Numbered.closes (h : m.Numbered) (id : Nat) : m.Closes id := by
  have hmem : m.isOpen id = true ↔ id ∈ m.openIds := isOpen_iff.trans h.mem_openIds_iff.symm
  refine ⟨?tells, ?removes, fun p hp => find?_closePipe_self hp, fun j hj => find?_closePipe_ne hj,
    fun hunopened => ?unopened⟩
  case tells => rw [closePipe_fst, hmem]
  case removes =>
    by_cases hopen : m.isOpen id = true
    · rw [closePipe_of_isOpen hopen, openIds_modify_close]
    · have hother : ∀ j ∈ m.openIds, decide (j ≠ id) = true := fun j hj =>
        decide_eq_true (ne_of_mem_of_not_mem hj (mt hmem.mpr hopen))
      rw [closePipe_of_not_isOpen hopen, List.filter_eq_self.mpr hother]
  case unopened => rw [closePipe_of_not_isOpen (mt hmem.mp hunopened)]

end PipeManager

/-- A host with pipes, and the allocator of groups that they share. -/
structure PipeHost where
  manager : PipeManager
  groups : GroupAllocator

namespace PipeHost

/-- A host that has not opened a pipe yet. -/
def start (r : Registry) (g : GroupAllocator) : PipeHost := ⟨.of r, g⟩

inductive Operation
  | openPipe (path : String)
  | closePipe (id : Nat)
  /-- A use of the pipe that was opened as this number. -/
  | use (id : Nat) (u : Pipe.Use)
  deriving DecidableEq

/-- Nobody holds a pipe that was never opened, so a use of it does nothing. -/
def perform (h : PipeHost) : Operation → PipeHost
  | .openPipe path => { h with manager := (h.manager.openPipe path).2 }
  | .closePipe id => { h with manager := (h.manager.closePipe id).2 }
  | .use id u =>
    match h.manager.find? id with
    | none => h
    | some i =>
      let (p, groups) := i.pipe.use h.groups u
      ⟨h.manager.setPipe p, groups⟩

def performAll (h : PipeHost) (ops : List Operation) : PipeHost := ops.foldl perform h

/-- The pipe that an operation gives, if it is an open that succeeds. -/
def gives (h : PipeHost) : Operation → Option Pipe
  | .openPipe path => (h.manager.openPipe path).1.toOption
  | .closePipe _ | .use _ _ => none

/-- The pipes that the operations give, in order. -/
def opened (h : PipeHost) : List Operation → List Pipe
  | [] => []
  | o :: os => (h.gives o).toList ++ (h.perform o).opened os

/-- How an operation uses the pipe of one number. A close that finds it open drops what is in its
queues. -/
def usesOf (h : PipeHost) (id : Nat) : Operation → List (GroupAllocator × Pipe.Use)
  | .openPipe _ => []
  | .closePipe j => if j = id ∧ h.manager.isOpen id then [(h.groups, .discard)] else []
  | .use j u => if j = id then [(h.groups, u)] else []

/-- All uses of the pipe of one number, with the allocator as it is at each. -/
def allUsesOf (h : PipeHost) (id : Nat) : List Operation → List (GroupAllocator × Pipe.Use)
  | [] => []
  | o :: os => h.usesOf id o ++ (h.perform o).allUsesOf id os

variable {h : PipeHost} {id j : Nat} {i : Instance} {p : Pipe} {o : Operation}
  {ops : List Operation}

theorem perform_use (hi : h.manager.find? id = some i) (u : Pipe.Use) :
    h.perform (.use id u) =
      ⟨h.manager.setPipe (i.pipe.use h.groups u).1, (i.pipe.use h.groups u).2⟩ := by
  unfold perform
  dsimp only
  rw [hi]

theorem perform_use_of_none (hnone : h.manager.find? id = none) (u : Pipe.Use) :
    h.perform (.use id u) = h := by
  unfold perform
  dsimp only
  rw [hnone]

theorem performAll_append (h : PipeHost) (os os' : List Operation) :
    h.performAll (os ++ os') = (h.performAll os).performAll os' := List.foldl_append

/-! ## One instance -/

/-- What is done with other instances leaves an instance as it is, and so does an open. -/
theorem find?_perform_of_other (hclose : o ≠ .closePipe id) (huse : ∀ u, o ≠ .use id u)
    (hi : h.manager.find? id = some i) : (h.perform o).manager.find? id = some i := by
  cases o with
  | openPipe path => exact PipeManager.find?_openPipe hi
  | closePipe j =>
    have hj : id ≠ j := fun hj => hclose (hj ▸ rfl)
    exact (PipeManager.find?_closePipe_ne hj).trans hi
  | use j u =>
    cases hother : h.manager.find? j with
    | none => rw [perform_use_of_none hother, hi]
    | some i' =>
      have hid : (i'.pipe.use h.groups u).1.id = j :=
        (Pipe.use_id _ _ _).trans (PipeManager.id_of_find? hother)
      have hj : id ≠ j := fun hj => huse u (hj ▸ rfl)
      rw [perform_use hother, PipeManager.find?_setPipe_ne (hid ▸ hj), hi]

theorem find?_perform_use (hi : h.manager.find? id = some i) (u : Pipe.Use) :
    (h.perform (.use id u)).manager.find? id = some ⟨(i.pipe.use h.groups u).1, i.isOpen⟩ := by
  have hid : (i.pipe.use h.groups u).1.id = id :=
    (Pipe.use_id _ _ _).trans (PipeManager.id_of_find? hi)
  rw [perform_use hi]
  dsimp only
  rw [← hid] at hi ⊢
  exact PipeManager.find?_setPipe_self hi

theorem usesOf_of_other (hclose : o ≠ .closePipe id) (huse : ∀ u, o ≠ .use id u) :
    h.usesOf id o = [] := by
  cases o with
  | openPipe path => rfl
  | closePipe j =>
    have hj : j ≠ id := fun hj => hclose (hj ▸ rfl)
    exact if_neg fun hboth => hj hboth.1
  | use j u =>
    have hj : j ≠ id := fun hj => huse u (hj ▸ rfl)
    exact if_neg hj

/-- Step: an instance that is there is used, and it is closed if this was asked for. -/
theorem find?_perform (hi : h.manager.find? id = some i) (o : Operation) :
    (h.perform o).manager.find? id =
      some ⟨i.pipe.useAll (h.usesOf id o), i.isOpen && decide (o ≠ .closePipe id)⟩ := by
  by_cases hclose : o = .closePipe id
  · subst hclose
    have hopen : h.manager.isOpen id = i.isOpen := by rw [PipeManager.isOpen, hi, Option.any_some]
    refine (PipeManager.find?_closePipe_self hi).trans ?_
    rw [usesOf, hopen, decide_eq_false (not_not.mpr rfl), Bool.and_false]
    obtain ⟨p, isOpen⟩ := i
    cases isOpen with
    | true =>
      rw [if_pos rfl, if_pos ⟨rfl, rfl⟩]
      rfl
    | false =>
      rw [if_neg Bool.false_ne_true, if_neg (fun hboth => Bool.false_ne_true hboth.2)]
      rfl
  · rw [decide_eq_true hclose, Bool.and_true]
    by_cases huse : ∃ u, o = .use id u
    · obtain ⟨u, rfl⟩ := huse
      rw [find?_perform_use hi, usesOf, if_pos rfl]
      rfl
    · have hother := not_exists.mp huse
      rw [usesOf_of_other hclose hother]
      exact find?_perform_of_other hclose hother hi

/-- Run: what becomes of an instance depends on its own uses only, and it is open until it is
closed. -/
theorem find?_performAll (hi : h.manager.find? id = some i) (ops : List Operation) :
    (h.performAll ops).manager.find? id =
      some ⟨i.pipe.useAll (h.allUsesOf id ops), i.isOpen && decide (.closePipe id ∉ ops)⟩ := by
  induction ops generalizing h i with
  | nil =>
    rw [performAll, List.foldl_nil, hi]
    simp [allUsesOf, Pipe.useAll]
  | cons o os ih =>
    rw [performAll, List.foldl_cons, ← performAll, ih (find?_perform hi o)]
    simp [allUsesOf, Pipe.useAll, Bool.and_assoc, eq_comm]

/-! ## All instances -/

/-- What an operation does to the list of all instances: an open that succeeds makes one more, with
the next number, and nothing else makes one. -/
theorem perform_cases (h : PipeHost) (o : Operation) :
    (∃ path p, o = .openPipe path ∧ (h.manager.openPipe path).1 = .ok p ∧
      p.id = h.manager.instances.length + 1 ∧
      (h.perform o).manager.instances = h.manager.instances ++ [⟨p, true⟩]) ∨
    (h.gives o = none ∧ (h.perform o).manager.ids = h.manager.ids) := by
  cases o with
  | openPipe path =>
    cases hopen : (h.manager.openPipe path).1 with
    | ok p =>
      obtain ⟨hid, hafter⟩ := PipeManager.openPipe_of_ok hopen
      exact .inl ⟨path, p, rfl, hopen, hid, congrArg PipeManager.instances hafter⟩
    | error err =>
      have hsame := PipeManager.openPipe_of_error hopen
      exact .inr ⟨congrArg Except.toOption hopen, congrArg PipeManager.ids hsame⟩
  | closePipe id => exact .inr ⟨rfl, h.manager.ids_closePipe id⟩
  | use id u =>
    refine .inr ⟨rfl, ?_⟩
    cases hi : h.manager.find? id with
    | none => rw [perform_use_of_none hi]
    | some i =>
      rw [perform_use hi]
      exact PipeManager.ids_modify fun _ _ => rfl

/-- Step: the numbers stay in order. -/
theorem numbered_perform (hm : h.manager.Numbered) (o : Operation) :
    (h.perform o).manager.Numbered := by
  obtain ⟨path, p, -, -, hid, hafter⟩ | ⟨-, hids⟩ := h.perform_cases o
  · exact hm.of_append hid hafter
  · exact hm.of_ids_eq hids

/-- Run: they are in order whatever was done. -/
theorem numbered (r : Registry) (g : GroupAllocator) (ops : List Operation) :
    ((start r g).performAll ops).manager.Numbered :=
  List.foldlRecOn (motive := fun h => h.manager.Numbered) ops perform rfl
    fun _ hm o _ => numbered_perform hm o

/-- The pipes that are opened get the numbers that follow those of the instances that are there. -/
theorem map_id_opened (h : PipeHost) (ops : List Operation) :
    (h.opened ops).map (·.id) =
      List.range' (h.manager.instances.length + 1) (h.opened ops).length := by
  induction ops generalizing h with
  | nil => rfl
  | cons o os ih =>
    rw [opened]
    obtain ⟨path, p, rfl, hopen, hid, hafter⟩ | ⟨hnone, hids⟩ := h.perform_cases o
    · have hgives : h.gives (.openPipe path) = some p := congrArg Except.toOption hopen
      rw [hgives, Option.toList_some, List.singleton_append, List.map_cons, ih, hafter, hid,
        List.length_append]
      rfl
    · rw [hnone, Option.toList_none, List.nil_append, ih, ← PipeManager.length_ids, hids,
        PipeManager.length_ids]

/-- An open that succeeds, among the operations of a host. -/
structure Opening (h : PipeHost) (ops : List Operation) where
  before : List Operation
  path : String
  after : List Operation
  pipe : Pipe
  split : ops = before ++ .openPipe path :: after
  opens : ((h.performAll before).manager.openPipe path).1 = .ok pipe

namespace Opening

/-- The host right after the open. -/
def host (o : Opening h ops) : PipeHost := (h.performAll o.before).perform (.openPipe o.path)

/-- The same open, with more operations after it. -/
def append (o : Opening h ops) (os : List Operation) : Opening h (ops ++ os) where
  before := o.before
  path := o.path
  after := o.after ++ os
  pipe := o.pipe
  split := (congrArg (· ++ os) o.split).trans (List.append_assoc _ _ _)
  opens := o.opens

theorem performAll_eq (o : Opening h ops) : h.performAll ops = o.host.performAll o.after := by
  refine (congrArg h.performAll o.split).trans ?_
  rw [performAll_append]
  rfl

end Opening

variable {r : Registry} {g : GroupAllocator}

/-- Every number comes from an open. -/
theorem exists_opening (hid : id ∈ ((start r g).performAll ops).manager.ids) :
    ∃ o : Opening (start r g) ops, o.pipe.id = id := by
  -- From the end, for it is the last operation whose number may be new.
  induction ops using List.reverseRecOn with
  | nil => cases hid
  | append_singleton ops o ih =>
    have hstep : (start r g).performAll (ops ++ [o]) = ((start r g).performAll ops).perform o :=
      performAll_append _ _ _
    rw [hstep] at hid
    obtain ⟨path, p, rfl, hopen, -, hafter⟩ | ⟨-, hids⟩ :=
      ((start r g).performAll ops).perform_cases o
    · rw [PipeManager.ids, hafter, List.map_append, List.mem_append] at hid
      rcases hid with hold | hnew
      · obtain ⟨opening, hopening⟩ := ih hold
        exact ⟨opening.append _, hopening⟩
      · exact ⟨⟨ops, path, [], p, rfl, hopen⟩, (List.mem_singleton.mp hnew).symm⟩
    · obtain ⟨opening, hopening⟩ := ih (hids ▸ hid)
      exact ⟨opening.append _, hopening⟩

/-- A new instance is found by its number. -/
theorem Opening.find?_host (o : Opening (start r g) ops) :
    o.host.manager.find? o.pipe.id = some ⟨o.pipe, true⟩ := by
  have hnumbered := numbered r g (o.before ++ [.openPipe o.path])
  rw [performAll_append] at hnumbered
  refine PipeManager.Numbered.find?_of_mem (i := ⟨o.pipe, true⟩) hnumbered ?_
  have hafter := (PipeManager.openPipe_of_ok o.opens).2
  change _ ∈ (((start r g).performAll o.before).manager.openPipe o.path).2.instances
  rw [hafter]
  exact List.mem_append_right _ (List.mem_singleton_self _)

/-- From then on it is the pipe that was opened, after its uses, and open until it is closed. -/
theorem Opening.find?_after (o : Opening (start r g) ops) :
    ((start r g).performAll ops).manager.find? o.pipe.id =
      some ⟨o.pipe.useAll (o.host.allUsesOf o.pipe.id o.after),
        decide (.closePipe o.pipe.id ∉ o.after)⟩ := by
  rw [o.performAll_eq, find?_performAll o.find?_host, Bool.true_and]

theorem mem_openIds_iff : id ∈ ((start r g).performAll ops).manager.openIds ↔
    ∃ o : Opening (start r g) ops, o.pipe.id = id ∧ .closePipe id ∉ o.after := by
  rw [(numbered r g ops).mem_openIds_iff]
  constructor
  · rintro ⟨p, hp⟩
    have hmem : id ∈ ((start r g).performAll ops).manager.ids :=
      List.mem_map.mpr ⟨_, List.mem_of_find?_eq_some hp, PipeManager.id_of_find? hp⟩
    obtain ⟨o, rfl⟩ := exists_opening hmem
    have hopen := congrArg Instance.isOpen (Option.some.inj (o.find?_after.symm.trans hp))
    exact ⟨o, rfl, of_decide_eq_true hopen⟩
  · rintro ⟨o, rfl, hkept⟩
    have hfind := o.find?_after
    rw [decide_eq_true hkept] at hfind
    exact ⟨_, hfind⟩

/-- **A host keeps its pipes apart.** Whatever was opened, closed and used, the pipes that were
opened have the numbers from 1 on, and an open that fails takes none. The table has the number of
each pipe that was opened and not closed since, and leads to this pipe as its own uses have left it.
A number is taken out of the table when it is closed, and the queues of its pipe are emptied
(`PipeManager.Closes`). What is done with one pipe leaves any other as it is. -/
theorem instances_kept (r : Registry) (g : GroupAllocator) (ops : List Operation) :
    let s := start r g
    let h := s.performAll ops
    (s.opened ops).map (·.id) = List.range' 1 (s.opened ops).length ∧
      (∀ path err, (h.manager.openPipe path).1 = .error err →
        (h.manager.openPipe path).2 = h.manager) ∧
      h.manager.openIds.Nodup ∧
      (∀ id, id ∈ h.manager.openIds ↔
        ∃ o : Opening s ops, o.pipe.id = id ∧ .closePipe id ∉ o.after) ∧
      (∀ id, id ∈ h.manager.openIds ↔ ∃ p, h.manager.find? id = some ⟨p, true⟩ ∧ p.id = id) ∧
      (∀ o : Opening s ops, h.manager.find? o.pipe.id =
        some ⟨o.pipe.useAll (o.host.allUsesOf o.pipe.id o.after),
          decide (.closePipe o.pipe.id ∉ o.after)⟩) ∧
      (∀ id, h.manager.Closes id) ∧
      (∀ o id i, o ≠ .closePipe id → (∀ u, o ≠ .use id u) → h.manager.find? id = some i →
        (h.perform o).manager.find? id = some i) := by
  intro s h
  have hnumbered : h.manager.Numbered := numbered r g ops
  refine ⟨map_id_opened s ops, fun _ _ => PipeManager.openPipe_of_error, hnumbered.nodup_openIds,
    fun _ => mem_openIds_iff, fun id => ?_, fun o => o.find?_after, hnumbered.closes,
    fun _ _ _ => find?_perform_of_other⟩
  rw [hnumbered.mem_openIds_iff]
  refine exists_congr fun p => ?_
  exact ⟨fun hp => ⟨hp, PipeManager.id_of_find? hp⟩, fun hp => hp.1⟩

/-- Two opens of the pipe of a service and one that fails, a part of a unit for the first instance,
which is then closed twice, and one more byte for it. -/
def sampleOperations : List Operation :=
  [.openPipe "none", .openPipe "some", .openPipe "none", .use 1 (.write [5, 0, 0]),
    .closePipe 1, .closePipe 1, .use 1 (.write [0])]

def sampleHost : PipeHost :=
  start ⟨[⟨⟨⟨1, 2, 3, 4⟩, 1, 0, "none"⟩, "none", [.ndr2], .empty⟩]⟩ .new

def firstOpening : Opening sampleHost sampleOperations :=
  ⟨[], "none", sampleOperations.tail, Pipe.samplePipe, rfl,
    by with_unfolding_all rfl⟩

def secondOpening : Opening sampleHost sampleOperations :=
  ⟨sampleOperations.take 2, "none", sampleOperations.drop 3, { Pipe.samplePipe with id := 2 }, rfl,
    by with_unfolding_all rfl⟩

/-- The second instance is still open. The first one was emptied when it was closed, and then has
what was written to it later. -/
theorem instances_kept_sampleOperations :
    (sampleHost.opened sampleOperations).map (·.id) = [1, 2] ∧
      1 ∉ (sampleHost.performAll sampleOperations).manager.openIds ∧
      2 ∈ (sampleHost.performAll sampleOperations).manager.openIds ∧
      (sampleHost.performAll sampleOperations).manager.find? 1 =
        some ⟨{ Pipe.samplePipe with inbound := [0] }, false⟩ := by
  obtain ⟨hids, -, -, hopenings, htable, huses, -⟩ := instances_kept _ .new sampleOperations
  have hopened : (sampleHost.opened sampleOperations).length = 2 := by decide +kernel
  have hpipe : Pipe.samplePipe.useAll (firstOpening.host.allUsesOf 1 firstOpening.after) =
      { Pipe.samplePipe with inbound := [0] } := by
    with_unfolding_all rfl
  have hclosed : decide (.closePipe 1 ∉ firstOpening.after) = false := by decide
  have hfirst := (huses firstOpening).trans (congrArg some (congrArg₂ Instance.mk hpipe hclosed))
  have hkept : .closePipe 2 ∉ secondOpening.after := by decide
  refine ⟨hids.trans (congrArg (List.range' 1) hopened), fun hmem => ?_,
    (hopenings 2).mpr ⟨secondOpening, rfl, hkept⟩, hfirst⟩
  obtain ⟨p, hp, -⟩ := (htable 1).mp hmem
  cases hp.symm.trans hfirst

end PipeHost

end RemoteCall
