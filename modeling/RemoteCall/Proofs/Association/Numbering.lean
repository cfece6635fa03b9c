import Mathlib.Algebra.Group.Nat.Defs
import Mathlib.Data.List.Nodup
import RemoteCall.Proofs.Endpoint.Parameters

/-! Which numbers the groups get (`Sharing.numbers_handed_out`). An allocator hands out all numbers
but 0 in turn, and starts again with 1 after the greatest one. So whoever takes the numbers, and in
whatever order, a number comes again only when all others have been handed out in between. -/

namespace RemoteCall

namespace GroupAllocator

/-! ## One allocator -/

/-- How many numbers there are for groups. -/
def period : Nat := 2 ^ 32 - 1

/-- The number that is handed out after `n` others. -/
def number (first : UInt32) (n : Nat) : Nat := (max first.toNat 1 - 1 + n) % period + 1

variable {first : UInt32} {g : GroupAllocator} {k m n : Nat}

theorem toNat_startingAt_next (first : UInt32) :
    (startingAt first).next.toNat = max first.toNat 1 := by
  unfold startingAt
  dsimp only
  split
  · rename_i hzero
    rw [hzero]
    rfl
  · rename_i hzero
    have hpos : first.toNat ≠ 0 := fun h => hzero (UInt32.toNat_inj.mp h)
    omega

/-- Step: the next number is one more, unless this one is the greatest. -/
theorem toNat_allocate_next (hg : g.next.toNat = k % period + 1) :
    g.allocate.2.next.toNat = (k + 1) % period + 1 := by
  change (startingAt (g.next + 1)).next.toNat = _
  rw [toNat_startingAt_next, UInt32.toNat_add, hg]
  simp only [period, UInt32.toNat_one]
  omega

/-- Run: the number that comes after any number of others. -/
theorem toNat_advance_next (hg : g.next.toNat = k % period + 1) (n : Nat) :
    (g.advance n).next.toNat = (k + n) % period + 1 := by
  induction n generalizing g k with
  | zero => exact hg
  | succ n ih =>
    have hrest := ih (toNat_allocate_next hg)
    rwa [Nat.add_assoc, Nat.add_comm 1 n] at hrest

theorem toNat_number (first : UInt32) (n : Nat) :
    ((startingAt first).advance n).next.toNat = number first n := by
  refine toNat_advance_next ?_ n
  have hlt := first.toNat_lt
  rw [toNat_startingAt_next]
  simp only [period]
  omega

theorem take_eq (g : GroupAllocator) (n : Nat) :
    g.take n = (List.range n).map fun k => (g.advance k).next := by
  induction n generalizing g with
  | zero => rfl
  | succ n ih =>
    rw [List.range_succ_eq_map, List.map_cons, List.map_map]
    exact congrArg (g.next :: ·) (ih g.allocate.2)

theorem map_toNat_take (first : UInt32) (n : Nat) :
    ((startingAt first).take n).map UInt32.toNat = (List.range n).map (number first) := by
  rw [take_eq, List.map_map]
  exact List.map_congr_left fun k _ => toNat_number first k

/-- A number does not come again before all others have come. -/
theorem number_ne (hlt : m < n) (hnear : n < m + period) : number first m ≠ number first n := by
  simp only [number, period] at *
  omega

/-- As many numbers as there are, one after the other, are different. -/
theorem nodup_number (first : UInt32) (k n : Nat) :
    ((((List.range n).map (number first)).drop k).take period).Nodup := by
  rw [List.Nodup, List.pairwise_iff_getElem]
  intro i j hi hj hlt
  have hnear : j < period := Nat.lt_of_lt_of_le hj (List.length_take_le _ _)
  simp only [List.getElem_take, List.getElem_drop, List.getElem_map, List.getElem_range]
  exact number_ne (by omega) (by omega)

end GroupAllocator

/-! ## Shared by endpoints -/

/-- The answer to a bind, and the state that it leads to, have this group. An answer that cannot be
written is none. -/
structure Turn.Assigns (t : Turn) (group : UInt32) : Prop where
  endpoint : t.endpoint.group = some group
  acknowledged : ∀ bs, t.answers = .ok bs →
    ∃ b a, bs = [b] ∧ Pdu.decode b = .ok (.bindAck a) ∧ a.group = group

theorem asksForGroup_iff {data : List UInt8} : asksForGroup data = true ↔
    ∃ p, Pdu.decode data = .ok (.bind p) ∧ p.header.major = Header.version ∧ p.group = 0 := by
  unfold asksForGroup
  split
  · rename_i p hdecode
    rw [hdecode, Bool.and_eq_true, beq_iff_eq, beq_iff_eq]
    constructor
    · intro h
      exact ⟨p, rfl, h⟩
    · rintro ⟨p', hp', h⟩
      cases hp'
      exact h
  · rename_i hdecode
    exact iff_of_false Bool.false_ne_true fun ⟨p, hp, _⟩ => hdecode p hp

namespace Endpoint

variable {e : Endpoint} {g : GroupAllocator} {data : List UInt8} {p : Proposal}

/-- A bind that asks for a group gets the next number of the allocator. -/
theorem turn_assigns (hmajor : p.header.major = Header.version) (hzero : p.group = 0) :
    (e.turn g (.ok (e.judgeBind g p))).Assigns g.allocate.1 := by
  have hgroup : (e.bindAck g p).group = g.allocate.1 := by
    rw [bindAck, Acknowledgement.ofBind_group, if_pos hzero]
  rw [judgeBind_of_spoken hmajor]
  refine ⟨congrArg some hgroup, fun bs hbs => ?_⟩
  obtain ⟨b, hb, hmk⟩ := bind_ok_iff.mp hbs
  cases hmk
  have hwritten : (Pdu.bindAck (e.bindAck g p)).Written b :=
    Pdu.written_of_encode (List.mem_singleton_self _) hb
  obtain ⟨_, hread, fragmentLength, authLength, rfl⟩ := hwritten.decode_same
  exact ⟨b, _, rfl, hread, hgroup⟩

theorem turn_groups (hmajor : p.header.major = Header.version) :
    (e.turn g (.ok (e.judgeBind g p))).groups = if p.group = 0 then g.allocate.2 else g := by
  rw [judgeBind_of_spoken hmajor]
  exact Acknowledgement.ofBind_groups g (e.boundService p) p

theorem process_of_bind (hdecode : Pdu.decode data = .ok (.bind p))
    (hmajor : p.header.major = Header.version) :
    e.process g data = e.turn g (.ok (e.judgeBind g p)) := by
  rw [process, judge_of_spoken hdecode hmajor]
  rfl

theorem processProposal_of_bind (hdecode : Pdu.decode data = .ok (.bind p)) :
    e.processProposal g data = e.turn g (.ok (e.judgeBind g p)) := by
  obtain ⟨-, hkind⟩ := Pdu.parse_of_decode hdecode
  have hbind : p.header.kind = .bind := List.mem_singleton.mp hkind
  unfold processProposal
  rw [Pdu.proposal_of_decode hdecode (.inl rfl), ok_bind]
  simp only [hbind]
  rfl

theorem processProposal_groups (e : Endpoint) (g : GroupAllocator) (data : List UInt8) :
    (e.processProposal g data).groups = if asksForGroup data then g.allocate.2 else g := by
  have hother : (∀ p, Pdu.decode data ≠ .ok (.bind p)) → asksForGroup data = false := by
    intro hbind
    exact asksForGroup_of_not_isBind fun ⟨p, hp, _⟩ => hbind p hp
  cases hproposal : Proposal.decode data with
  | error err =>
    have hasks : asksForGroup data = false := hother fun p hp => by
      cases (Pdu.proposal_of_decode hp (.inl rfl)).symm.trans hproposal
    rw [processProposal, hproposal, hasks]
    rfl
  | ok p =>
    rcases Proposal.kind_of_decode hproposal with hkind | hkind
    · have hdecode := Pdu.decode_of_bind hproposal hkind
      rw [processProposal_of_bind hdecode]
      by_cases hmajor : p.header.major = Header.version
      · rw [turn_groups hmajor, asksForGroup_of_bind hdecode hmajor]
        simp only [beq_iff_eq]
      · have hasks : asksForGroup data = false :=
          asksForGroup_of_not_isBind (not_isBind_of_decode hdecode fun p' hp' => by
            cases hp'
            exact hmajor)
        rw [judgeBind_of_foreign hmajor, hasks]
        rfl
    · have hasks : asksForGroup data = false := hother fun p' hp' => by
        obtain ⟨-, hmem⟩ := Pdu.parse_of_decode hp'
        cases (Pdu.proposal_of_decode hp' (.inl rfl)).symm.trans hproposal
        exact absurd (hkind.symm.trans (List.mem_singleton.mp hmem)) (by decide)
      rw [processProposal, hproposal, ok_bind, hasks]
      simp only [hkind]
      rfl

end Endpoint

/-- The ways to hand a unit to an endpoint. -/
inductive Entry
  | process
  | proposal
  | request

namespace Entry

def turn (e : Endpoint) (g : GroupAllocator) (data : List UInt8) : Entry → Turn
  | process => e.process g data
  | proposal => e.processProposal g data
  | request => e.processRequest g data

/-- The unit is a bind that asks for a group, and it is taken as one. -/
def asks (data : List UInt8) : Entry → Bool
  | process | proposal => asksForGroup data
  | request => false

variable {entry : Entry} {data : List UInt8}

theorem turn_groups (entry : Entry) (e : Endpoint) (g : GroupAllocator) (data : List UInt8) :
    (entry.turn e g data).groups = if entry.asks data then g.allocate.2 else g := by
  cases entry with
  | process => exact e.process_groups g data
  | proposal => exact e.processProposal_groups g data
  | request =>
    change (e.processRequest g data).groups = g
    unfold Endpoint.processRequest Endpoint.turn
    cases Request.decode data <;> rfl

theorem turn_assigns (hasks : entry.asks data = true) (e : Endpoint) (g : GroupAllocator) :
    (entry.turn e g data).Assigns g.allocate.1 := by
  cases entry with
  | request => cases hasks
  | process =>
    obtain ⟨p, hdecode, hmajor, hzero⟩ := asksForGroup_iff.mp hasks
    change (e.process g data).Assigns _
    rw [Endpoint.process_of_bind hdecode hmajor]
    exact Endpoint.turn_assigns hmajor hzero
  | proposal =>
    obtain ⟨p, hdecode, hmajor, hzero⟩ := asksForGroup_iff.mp hasks
    change (e.processProposal g data).Assigns _
    rw [Endpoint.processProposal_of_bind hdecode]
    exact Endpoint.turn_assigns hmajor hzero

end Entry

namespace Sharing

/-- What can be done with endpoints that share an allocator, and with the allocator itself. -/
inductive Operation (ι : Type)
  | deliver (i : ι) (entry : Entry) (data : List UInt8)
  | allocate

namespace Operation

variable {ι : Type}

/-- The operation takes a number. -/
def asks : Operation ι → Bool
  | deliver _ entry data => entry.asks data
  | allocate => true

end Operation

variable {ι : Type} {o : Operation ι}

/-- The operation gets the number: it is the group that a bind is answered with, or the number that
is taken from the allocator. -/
def Gets (s : Sharing ι) (n : UInt32) : Operation ι → Prop
  | .deliver i entry data => (entry.turn (s.endpoints i) s.groups data).Assigns n
  | .allocate => s.groups.allocate.1 = n

/-- An operation that takes a number gets the next one, and no other. -/
theorem gets_iff (hasks : o.asks = true) (s : Sharing ι) : s.Gets n o ↔ n = s.groups.next := by
  cases o with
  | allocate => exact eq_comm
  | deliver i entry data =>
    have hassigns := Entry.turn_assigns hasks (s.endpoints i) s.groups
    constructor
    · intro hgets
      exact Option.some.inj (hgets.endpoint.symm.trans hassigns.endpoint)
    · rintro rfl
      exact hassigns

variable [DecidableEq ι]

def perform (s : Sharing ι) : Operation ι → Sharing ι
  | .deliver i entry data =>
    let t := entry.turn (s.endpoints i) s.groups data
    ⟨Function.update s.endpoints i t.endpoint, t.groups⟩
  | .allocate => { s with groups := s.groups.allocate.2 }

def performAll (s : Sharing ι) (ops : List (Operation ι)) : Sharing ι := ops.foldl perform s

/-- Several operations in turn, and all numbers that they get. -/
inductive Numbers : Sharing ι → List (Operation ι) → List UInt32 → Prop
  | nil {s : Sharing ι} : Numbers s [] []
  | asks {s : Sharing ι} {o : Operation ι} {os : List (Operation ι)} {n : UInt32} {ns : List UInt32}
      (hasks : o.asks = true) (hgets : s.Gets n o) (hrest : Numbers (s.perform o) os ns) :
    Numbers s (o :: os) (n :: ns)
  | other {s : Sharing ι} {o : Operation ι} {os : List (Operation ι)} {ns : List UInt32}
      (hasks : o.asks = false) (hrest : Numbers (s.perform o) os ns) : Numbers s (o :: os) ns

theorem perform_groups (s : Sharing ι) (o : Operation ι) :
    (s.perform o).groups = if o.asks then s.groups.allocate.2 else s.groups := by
  cases o with
  | deliver i entry data => exact entry.turn_groups _ _ _
  | allocate => rfl

theorem performAll_groups (s : Sharing ι) (ops : List (Operation ι)) :
    (s.performAll ops).groups = s.groups.advance (ops.countP Operation.asks) := by
  induction ops generalizing s with
  | nil => rfl
  | cons o os ih =>
    rw [performAll, List.foldl_cons, ← performAll, ih, perform_groups, List.countP_cons]
    cases o.asks <;> rfl

/-- The numbers that come of operations are those that the allocator alone would hand out. -/
theorem numbers_iff (s : Sharing ι) (ops : List (Operation ι)) (ns : List UInt32) :
    s.Numbers ops ns ↔ ns = s.groups.take (ops.countP Operation.asks) := by
  induction ops generalizing s ns with
  | nil =>
    constructor
    · rintro ⟨⟩
      rfl
    · rintro rfl
      exact .nil
  | cons o os ih =>
    have hgroups := s.perform_groups o
    rw [List.countP_cons]
    cases hasks : o.asks with
    | false =>
      rw [hasks] at hgroups
      have hrest := ih (s.perform o) ns
      rw [hgroups] at hrest
      refine Iff.trans ⟨?_, .other hasks⟩ hrest
      rintro (- | ⟨hasks', -, -⟩ | ⟨-, hrest⟩)
      · cases hasks.symm.trans hasks'
      · exact hrest
    | true =>
      rw [hasks, if_pos rfl] at hgroups
      constructor
      · rintro (- | ⟨-, hgets, hrest⟩ | ⟨hasks', -⟩)
        · rw [(gets_iff hasks s).mp hgets, (ih _ _).mp hrest, hgroups]
          rfl
        · cases hasks.symm.trans hasks'
      · rintro rfl
        refine .asks hasks ((gets_iff hasks s).mpr rfl) ((ih _ _).mpr ?_)
        rw [hgroups]

/-- **Groups get fresh numbers other than 0.** Whatever endpoints share an allocator, and in
whatever order they take its numbers, the numbers are those that follow its first one, with 1 after
the greatest. None is 0, and as many as there are in all, one after the other, are different. So two
operations that are nearer to each other get different ones. -/
theorem numbers_handed_out (first : UInt32) (endpoints : ι → Endpoint) (ops : List (Operation ι)) :
    let s : Sharing ι := ⟨endpoints, .startingAt first⟩
    (∃ ns, (∀ ns', s.Numbers ops ns' ↔ ns' = ns) ∧
      ns.map UInt32.toNat =
        (List.range (ops.countP Operation.asks)).map (GroupAllocator.number first) ∧
      0 ∉ ns ∧ ∀ k, ((ns.drop k).take GroupAllocator.period).Nodup) ∧
    ∀ before o between o', o.asks = true → o'.asks = true →
      between.countP Operation.asks + 1 < GroupAllocator.period →
      ∃ n n', (s.performAll before).Gets n o ∧
        (s.performAll (before ++ o :: between)).Gets n' o' ∧ n ≠ n' := by
  intro s
  refine ⟨⟨_, s.numbers_iff ops, GroupAllocator.map_toNat_take first _, ?_, fun k => ?_⟩, ?_⟩
  · intro hzero
    have hmem := List.mem_map_of_mem (f := UInt32.toNat) hzero
    rw [GroupAllocator.map_toNat_take] at hmem
    obtain ⟨k, -, hk⟩ := List.mem_map.mp hmem
    cases hk
  · refine List.Nodup.of_map UInt32.toNat ?_
    rw [List.map_take, List.map_drop, GroupAllocator.map_toNat_take]
    exact GroupAllocator.nodup_number first k _
  · intro before o between o' ho ho' hnear
    refine ⟨_, _, (gets_iff ho _).mpr rfl, (gets_iff ho' _).mpr rfl, fun heq => ?_⟩
    have hnumbers := congrArg UInt32.toNat heq
    rw [performAll_groups, performAll_groups, List.countP_append, List.countP_cons_of_pos ho,
      GroupAllocator.toNat_number, GroupAllocator.toNat_number] at hnumbers
    exact GroupAllocator.number_ne (by omega) (by omega) hnumbers

/-- Two clients bind with the same allocator, and a number is taken from it in between. -/
def sampleBinds : List (Operation Bool) :=
  [.deliver true .process (Endpoint.sampleBind 0 Endpoint.bareService), .allocate,
    .deliver false .proposal (Endpoint.sampleBind 0 Endpoint.bareService)]

/-- The allocator starts with its greatest number. -/
theorem numbers_handed_out_sampleBinds :
    let s : Sharing Bool := ⟨twoEndpoints.endpoints, .startingAt 4294967295⟩
    s.Numbers sampleBinds [4294967295, 1, 2] ∧
      ∃ n n', s.Gets n sampleBinds[0] ∧
        (s.performAll (sampleBinds.take 2)).Gets n' sampleBinds[2] ∧ n ≠ n' := by
  intro s
  obtain ⟨⟨ns, hns, hnumbers, -⟩, hapart⟩ :=
    numbers_handed_out 4294967295 twoEndpoints.endpoints sampleBinds
  have hasks : ∀ o ∈ sampleBinds, o.asks = true := by
    unfold sampleBinds
    simp only [List.forall_mem_cons]
    exact ⟨rfl, rfl, rfl, nofun⟩
  refine ⟨(hns _).mpr (List.map_injective_iff.mpr (fun _ _ => UInt32.toNat_inj.mp) ?_), ?_⟩
  · rw [hnumbers, List.countP_eq_length.mpr hasks]
    rfl
  · exact hapart [] sampleBinds[0] [.allocate] sampleBinds[2] rfl rfl (by decide)

end Sharing

end RemoteCall
