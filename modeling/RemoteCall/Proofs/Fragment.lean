import Mathlib.Data.List.Forall2
import RemoteCall.Fragment
import RemoteCall.Proofs.Assembly

/-! The fragments of one call: only the first has the first-fragment flag, only the last one the
last-fragment flag, and their stubs make up the payload. A payload is always cut into such a list,
and an assembly that takes the list in gives the payload back. -/

namespace RemoteCall

/-- The fragments of a call with their payload, from the first one on if `first`, and from a later
one on otherwise. -/
inductive Fragments (callId : UInt32) : Bool → List Fragment → List UInt8 → Prop
  | last {first : Bool} {f : Fragment} (hid : f.callId = callId) (hfirst : f.flags.isFirst = first)
      (hlast : f.flags.isLast = true) : Fragments callId first [f] f.stub
  | more {first : Bool} {f : Fragment} {fs : List Fragment} {rest : List UInt8}
      (hid : f.callId = callId) (hfirst : f.flags.isFirst = first) (hlast : f.flags.isLast = false)
      (hrest : Fragments callId false fs rest) : Fragments callId first (f :: fs) (f.stub ++ rest)

/-- Fragments that an assembly does not tell apart. -/
structure Fragment.Alike (f f' : Fragment) : Prop where
  callId : f.callId = f'.callId
  isFirst : f.flags.isFirst = f'.flags.isFirst
  isLast : f.flags.isLast = f'.flags.isLast
  stub : f.stub = f'.stub

theorem Fragments.congr {callId : UInt32} {first : Bool} {fs fs' : List Fragment}
    {payload : List UInt8} (h : Fragments callId first fs payload)
    (halike : List.Forall₂ Fragment.Alike fs' fs) : Fragments callId first fs' payload := by
  induction h generalizing fs' with
  | last hid hfirst hlast =>
    obtain ⟨f', _, hf, hnil, rfl⟩ := List.forall₂_cons_right_iff.mp halike
    cases hnil
    rw [← hf.stub]
    exact .last (hf.callId.trans hid) (hf.isFirst.trans hfirst) (hf.isLast.trans hlast)
  | more hid hfirst hlast _ ih =>
    obtain ⟨f', fs', hf, hrest, rfl⟩ := List.forall₂_cons_right_iff.mp halike
    rw [← hf.stub]
    exact .more (hf.callId.trans hid) (hf.isFirst.trans hfirst) (hf.isLast.trans hlast) (ih hrest)

theorem fragments_cons_iff {callId : UInt32} {first : Bool} {f : Fragment} {fs : List Fragment}
    {payload : List UInt8} : Fragments callId first (f :: fs) payload ↔
      f.callId = callId ∧ f.flags.isFirst = first ∧
        ((f.flags.isLast = true ∧ fs = [] ∧ payload = f.stub) ∨
          (f.flags.isLast = false ∧
            ∃ rest, Fragments callId false fs rest ∧ payload = f.stub ++ rest)) := by
  constructor
  · intro h
    cases h with
    | last hid hfirst hlast => exact ⟨hid, hfirst, .inl ⟨hlast, rfl, rfl⟩⟩
    | more hid hfirst hlast hrest => exact ⟨hid, hfirst, .inr ⟨hlast, _, hrest, rfl⟩⟩
  · rintro ⟨hid, hfirst, ⟨hlast, rfl, rfl⟩ | ⟨hlast, rest, hrest, rfl⟩⟩
    · exact .last hid hfirst hlast
    · exact .more hid hfirst hlast hrest

/-- The fragments of a call, told from each of them by its place. -/
theorem fragments_iff {callId : UInt32} {first : Bool} {fs : List Fragment}
    {payload : List UInt8} : Fragments callId first fs payload ↔
      fs ≠ [] ∧ (∀ f ∈ fs, f.callId = callId) ∧
      (∀ i (h : i < fs.length), fs[i].flags.isFirst = (first && decide (i = 0))) ∧
      (∀ i (h : i < fs.length), fs[i].flags.isLast = decide (i + 1 = fs.length)) ∧
      payload = fs.flatMap (·.stub) := by
  induction fs generalizing first payload with
  | nil =>
    constructor
    · nofun
    · rintro ⟨hne, -⟩
      exact absurd rfl hne
  | cons f fs ih =>
    constructor
    · intro h
      cases h with
      | last hid hfirst hlast =>
        refine ⟨List.cons_ne_nil _ _, List.forall_mem_singleton.mpr hid, ?_, ?_, ?_⟩
        · intro i hi
          obtain rfl : i = 0 := Nat.lt_one_iff.mp hi
          simpa using hfirst
        · intro i hi
          obtain rfl : i = 0 := Nat.lt_one_iff.mp hi
          simpa using hlast
        · simp
      | more hid hfirst hlast hrest =>
        obtain ⟨hne, hids, hfirsts, hlasts, rfl⟩ := ih.mp hrest
        refine ⟨List.cons_ne_nil _ _, List.forall_mem_cons.mpr ⟨hid, hids⟩, ?_, ?_, ?_⟩
        · intro i hi
          cases i with
          | zero => simpa using hfirst
          | succ i => simpa using hfirsts i (Nat.lt_of_succ_lt_succ hi)
        · intro i hi
          cases i with
          | zero => simpa [hne] using hlast
          | succ i => simpa using hlasts i (Nat.lt_of_succ_lt_succ hi)
        · simp
    · rintro ⟨-, hids, hfirsts, hlasts, rfl⟩
      obtain ⟨hid, hids⟩ := List.forall_mem_cons.mp hids
      have hfirst : f.flags.isFirst = first := by simpa using hfirsts 0 (Nat.succ_pos _)
      have hlast : f.flags.isLast = decide (fs = []) := by simpa using hlasts 0 (Nat.succ_pos _)
      by_cases hnil : fs = []
      · subst hnil
        simpa using Fragments.last hid hfirst hlast
      · refine .more hid hfirst (by simpa [hnil] using hlast) (ih.mpr ⟨hnil, hids, ?_, ?_, rfl⟩)
        · intro i hi
          simpa using hfirsts (i + 1) (Nat.succ_lt_succ hi)
        · intro i hi
          simpa using hlasts (i + 1) (Nat.succ_lt_succ hi)

/-! ## Cutting -/

namespace Slice

theorem flags_spec (s : Slice) :
    s.flags.isFirst = s.isFirst ∧ s.flags.isLast = s.isLast ∧ s.flags.hasObject = false := by
  have hall : ∀ first last : Bool,
      let flags := (if first then Flags.firstFragment else Flags.empty).union
        (if last then Flags.lastFragment else Flags.empty)
      flags.isFirst = first ∧ flags.isLast = last ∧ flags.hasObject = false := by decide
  exact hall s.isFirst s.isLast

/-- What a slice is as a fragment. -/
def fragment (callId : UInt32) (s : Slice) : Fragment := ⟨callId, s.flags, s.data⟩

end Slice

/-- The slices of a payload carry that payload. -/
theorem fragments_slices (callId : UInt32) (room : Nat) (first : Bool) (payload : List UInt8) :
    Fragments callId first ((slices room first payload).map (Slice.fragment callId)) payload := by
  induction first, payload using slices.induct room with
  | case1 first payload h =>
    rw [slices, dif_pos h]
    exact .last rfl (Slice.flags_spec _).1 (Slice.flags_spec _).2.1
  | case2 first payload h ih =>
    rw [slices, dif_neg h]
    let s : Slice := ⟨first, false, payload.length, payload.take room⟩
    have hid : (s.fragment callId).callId = callId := rfl
    have hmore := Fragments.more hid s.flags_spec.1 s.flags_spec.2.1 ih
    rw [show (s.fragment callId).stub = payload.take room from rfl, List.take_append_drop] at hmore
    exact hmore

/-- No slice is longer than the room for it. -/
theorem length_data_le_of_mem_slices {room : Nat} (hroom : room ≠ 0) (first : Bool)
    (payload : List UInt8) : ∀ s ∈ slices room first payload, s.data.length ≤ room := by
  induction first, payload using slices.induct room with
  | case1 first payload h =>
    rw [slices, dif_pos h]
    intro s hs
    cases List.mem_singleton.mp hs
    rcases h with h | h
    · exact h
    · exact absurd h hroom
  | case2 first payload h ih =>
    rw [slices, dif_neg h]
    intro s hs
    rcases List.mem_cons.mp hs with rfl | hs
    · exact List.length_take_le room payload
    · exact ih s hs

theorem roomFor_of_lt {maxFragment : UInt16} {fixed : Nat}
    (h : Header.size + fixed < maxFragment.toNat) :
    roomFor maxFragment fixed = .ok (maxFragment.toNat - (Header.size + fixed)) := by
  unfold roomFor
  exact if_neg (Nat.not_le.mpr h)

/-! ## Putting together -/

namespace Assembly

/-- The assembly is ready for the first fragment of a call, or for a later one of the call that is
in progress. -/
def Awaits (a : Assembly) (callId : UInt32) : Bool → Prop
  | true => a.inProgress = false
  | false => a = accumulating callId a.gathered

theorem Awaits.accepts {a : Assembly} {callId : UInt32} {first : Bool} (h : a.Awaits callId first)
    {f : Fragment} (hid : f.callId = callId) (hfirst : f.flags.isFirst = first) : a.Accepts f := by
  cases first with
  | true => exact (accepts_iff_of_idle h).mpr hfirst
  | false =>
    have ha : a = accumulating callId a.gathered := h
    rw [ha]
    exact ⟨hid, hfirst⟩

/-- A fragment of the call is in its place when it says so. -/
theorem Awaits.accepts_iff {a : Assembly} {callId : UInt32} {first : Bool}
    (h : a.Awaits callId first) {f : Fragment} (hid : f.callId = callId) :
    a.Accepts f ↔ f.flags.isFirst = first := by
  refine ⟨fun haccepts => ?_, h.accepts hid⟩
  cases first with
  | true => exact (accepts_iff_of_idle h).mp haccepts
  | false =>
    have ha : a = accumulating callId a.gathered := h
    rw [ha] at haccepts
    exact haccepts.2

theorem awaits_accumulating (callId : UInt32) (received : List UInt8) :
    (accumulating callId received).Awaits callId false := rfl

/-- Run: the fragments that an assembly awaits complete the call that is in progress. -/
theorem gather_of_fragments {callId : UInt32} {first : Bool} {fs : List Fragment}
    {payload : List UInt8} (h : Fragments callId first fs payload) {a : Assembly}
    (ha : a.Awaits callId first) (seen : UInt32) :
    a.gather none seen fs = .ok (a.gathered ++ payload) := by
  induction h generalizing a seen with
  | last hid hfirst hlast =>
    have hpush := push_of_last (ha.accepts hid hfirst) hlast
    simp [gather, hpush]
  | @more first f fs rest hid hfirst hlast _ ih =>
    have hpush := push_of_not_last (ha.accepts hid hfirst) hlast
    have hrest := ih (a := accumulating f.callId (a.gathered ++ f.stub))
      (hid ▸ awaits_accumulating f.callId _) f.callId
    simp [gather, hpush, hrest]

end Assembly

/-- The fragments of a call are put together to its payload. -/
theorem reassemble_of_fragments {callId : UInt32} {fs : List Fragment} {payload : List UInt8}
    (h : Fragments callId true fs payload) : reassemble fs = .ok payload :=
  Assembly.gather_of_fragments h (a := .awaitingFirst) rfl 0

end RemoteCall
