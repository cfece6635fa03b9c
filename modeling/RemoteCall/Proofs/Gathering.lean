import RemoteCall.Proofs.Reassembly

/-! A list of fragments that is put together at once (`reassemble_whole_calls`). The fragments of a
whole call give its payload, those that break off before the last one are incomplete, and all other
lists are refused. Which of the three it is shows in the call ids and the flags alone. -/

namespace RemoteCall

/-! ## Whole calls and beginnings -/

/-- The fragments of a call from the first to the last one, of which only the last one says so. -/
structure IsWhole (callId : UInt32) (fs : List Fragment) : Prop extends IsRun callId fs where
  lasts : ∀ i (h : i < fs.length), fs[i].flags.isLast = decide (i + 1 = fs.length)

/-- The list ends before the last fragment of its call. It may have no fragment yet. -/
def BreaksOff (fs : List Fragment) : Prop := fs = [] ∨ ∃ callId, Begins callId fs

/-- The call of the fragment that came last, and 0 when there was none. -/
def lastCallId (fs : List Fragment) : UInt32 := (fs.getLast?.map (·.callId)).getD 0

section Lists

variable {callId : UInt32} {fs gs : List Fragment} {f : Fragment} {payload : List UInt8}

theorem isWhole_iff : IsWhole callId fs ∧ payload = fs.flatMap (·.stub) ↔
    Fragments callId true fs payload := by
  rw [fragments_iff]
  constructor
  · rintro ⟨⟨⟨hnil, hsame, hfirsts⟩, hlasts⟩, hpayload⟩
    exact ⟨hnil, hsame, by simpa using hfirsts, hlasts, hpayload⟩
  · rintro ⟨hnil, hsame, hfirsts, hlasts, hpayload⟩
    exact ⟨⟨⟨hnil, hsame, by simpa using hfirsts⟩, hlasts⟩, hpayload⟩

theorem IsRun.left (h : IsRun callId (fs ++ gs)) (hfs : fs ≠ []) : IsRun callId fs where
  nonempty := hfs
  sameCall f hf := h.sameCall f (List.mem_append_left gs hf)
  firsts i hi := by
    have hfirst := h.firsts i (by rw [List.length_append]; omega)
    rwa [List.getElem_append_left hi] at hfirst

/-- What is in front of another fragment has no last one among it. -/
theorem IsWhole.unfinished_left (h : IsWhole callId (fs ++ f :: gs)) :
    ∀ g ∈ fs, g.flags.isLast = false := by
  intro g hg
  obtain ⟨i, hi, rfl⟩ := List.getElem_of_mem hg
  have hlast := h.lasts i (by rw [List.length_append]; omega)
  rw [List.getElem_append_left hi] at hlast
  rw [hlast, decide_eq_false_iff_not, List.length_append, List.length_cons]
  omega

/-- Each fragment of a whole call continues those in front of it. -/
theorem IsWhole.continues (h : IsWhole callId (fs ++ f :: gs)) : Continues callId fs f := by
  have hcut : fs ++ f :: gs = (fs ++ [f]) ++ gs := by simp
  have hrun := h.toIsRun
  rw [hcut] at hrun
  exact continues_iff.mpr ⟨hrun.left (by simp), h.unfinished_left⟩

theorem IsWhole.begins_left (h : IsWhole callId (fs ++ f :: gs)) (hfs : fs ≠ []) :
    Begins callId fs :=
  ⟨h.toIsRun.left hfs, h.unfinished_left⟩

/-- A list that breaks off is a proper first part of the fragments of some call. -/
theorem breaksOff_iff :
    BreaksOff fs ↔ ∃ rest, rest ≠ [] ∧ ∃ callId, IsWhole callId (fs ++ rest) := by
  constructor
  · rintro (rfl | ⟨callId, hbegins⟩)
    · have hcontinues : Continues 0 [] ⟨0, .complete, []⟩ := ⟨rfl, .inl ⟨rfl, rfl⟩⟩
      have hall := fragments_concat_iff.mpr ⟨hcontinues, rfl, rfl⟩
      exact ⟨_, List.cons_ne_nil _ _, 0, (isWhole_iff.mpr hall).1⟩
    · have hflags : Flags.lastFragment.isFirst = false ∧ Flags.lastFragment.isLast = true := by
        decide
      have hcontinues : Continues callId fs ⟨callId, .lastFragment, []⟩ :=
        ⟨rfl, .inr ⟨hbegins, hflags.1⟩⟩
      have hall := fragments_concat_iff.mpr ⟨hcontinues, hflags.2, rfl⟩
      exact ⟨_, List.cons_ne_nil _ _, callId, (isWhole_iff.mpr hall).1⟩
  · rintro ⟨rest, hrest, callId, hwhole⟩
    obtain ⟨f, gs, rfl⟩ := List.exists_cons_of_ne_nil hrest
    by_cases hfs : fs = []
    · exact .inl hfs
    · exact .inr ⟨callId, hwhole.begins_left hfs⟩

/-- A whole call does not break off. -/
theorem IsWhole.not_breaksOff (h : IsWhole callId fs) : ¬ BreaksOff fs := by
  rintro (hnil | ⟨callId', hbegins⟩)
  · exact h.nonempty hnil
  · have hpos : 0 < fs.length := List.length_pos_iff.mpr h.nonempty
    have hlast := h.lasts (fs.length - 1) (by omega)
    rw [hbegins.unfinished _ (List.getElem_mem _), eq_comm, decide_eq_false_iff_not] at hlast
    omega

end Lists

/-! ## Gathering -/

namespace Assembly

/-- What can come of a list of fragments. -/
inductive Gathers (fs : List Fragment) : Except Error (List UInt8) → Prop
  | whole {callId : UInt32} (h : IsWhole callId fs) : Gathers fs (.ok (fs.flatMap (·.stub)))
  | breaksOff (h : BreaksOff fs) : Gathers fs (.error (.incompleteCall (lastCallId fs)))
  | refused {defect : ReassemblyDefect} (hwhole : ¬ ∃ callId, IsWhole callId fs)
      (hbreaks : ¬ BreaksOff fs) : Gathers fs (.error (.reassembly defect))

variable {fs gs : List Fragment} {f : Fragment} {defect : ReassemblyDefect}

/-- After a fragment that is out of place, a list is no part of a call, whatever follows. -/
theorem Gathers.of_not_continues (h : ¬ ∃ callId, Continues callId fs f) :
    Gathers (fs ++ f :: gs) (.error (.reassembly defect)) := by
  refine .refused (fun ⟨callId, hwhole⟩ => h ⟨callId, hwhole.continues⟩) fun hbreaks => ?_
  obtain ⟨rest, -, callId, hwhole⟩ := breaksOff_iff.mp hbreaks
  rw [List.append_assoc, List.cons_append] at hwhole
  exact h ⟨callId, hwhole.continues⟩

/-- Nothing continues a list that has its last fragment. -/
theorem not_continues_of_last (hlast : f.flags.isLast = true) (f' : Fragment) :
    ¬ ∃ callId, Continues callId (fs ++ [f]) f' := by
  rintro ⟨callId, hcontinues⟩
  have hunfinished := (continues_iff.mp hcontinues).2 f (by simp)
  rw [hlast] at hunfinished
  cases hunfinished

/-- Run: an assembly that holds the fragments so far tells what comes of them and of the rest. -/
theorem History.Sound.gathers {h : History} (hs : h.Sound) (fs : List Fragment) :
    Gathers (h.run ++ fs) (h.assembly.gather none (lastCallId h.run) fs) := by
  induction fs generalizing h with
  | nil =>
    rw [List.append_nil]
    cases hs with
    | idle ha => exact .breaksOff (.inl rfl)
    | run hbegins => exact .breaksOff (.inr ⟨_, hbegins⟩)
  | cons f fs ih =>
    rcases hs.push_cases f with ⟨callId, hbegins⟩ | ⟨callId, payload, hall⟩ |
      ⟨hcontinues, defect, hpush⟩
    · -- The run has grown by one fragment.
      have hid : lastCallId (h.run ++ [f]) = f.callId := by simp [lastCallId]
      have hrest := ih (.run hbegins)
      rw [List.append_assoc, List.singleton_append, hid] at hrest
      simpa [gather, hs.push_of_begins hbegins] using hrest
    · simp only [gather, Option.isSome_none, Bool.false_eq_true, if_false,
        hs.push_of_fragments hall]
      obtain ⟨hwhole, hpayload⟩ := isWhole_iff.mpr hall
      obtain ⟨-, hlast, -⟩ := fragments_concat_iff.mp hall
      cases fs with
      | nil =>
        rw [hpayload]
        exact .whole hwhole
      | cons f' fs =>
        have hrefused : Gathers ((h.run ++ [f]) ++ f' :: fs)
            (.error (.reassembly (.afterLast f'.callId))) :=
          .of_not_continues (not_continues_of_last hlast f')
        rw [List.append_assoc, List.singleton_append] at hrefused
        exact hrefused
    · simp only [gather, Option.isSome_none, Bool.false_eq_true, if_false, hpush]
      exact .of_not_continues hcontinues

end Assembly

theorem reassemble_gathers (fs : List Fragment) : Assembly.Gathers fs (reassemble fs) :=
  Assembly.History.Sound.gathers (h := .new) (.idle rfl) fs

/-- **Exactly the fragments of a call are put together.** A list gives a payload if and only if its
fragments are those of a whole call, and the payload is what their stubs make up. It is incomplete
if and only if it breaks off, which is to say that it is a proper first part of the fragments of
some call; the error tells the call of the fragment that came last. Every other list is an error of
reassembly. -/
theorem reassemble_whole_calls (fs : List Fragment) :
    (∀ payload, reassemble fs = .ok payload ↔
      (∃ callId, IsWhole callId fs) ∧ payload = fs.flatMap (·.stub)) ∧
    (∀ callId, reassemble fs = .error (.incompleteCall callId) ↔
      BreaksOff fs ∧ callId = lastCallId fs) ∧
    (BreaksOff fs ↔ ∃ rest, rest ≠ [] ∧ ∃ callId, IsWhole callId (fs ++ rest)) ∧
    ((∃ defect, reassemble fs = .error (.reassembly defect)) ↔
      (¬ ∃ callId, IsWhole callId fs) ∧ ¬ BreaksOff fs) := by
  have hgathers := reassemble_gathers fs
  generalize reassemble fs = outcome at hgathers
  refine ⟨fun payload => ?_, fun callId => ?_, breaksOff_iff, ?_⟩
  · cases hgathers with
    | @whole callId hwhole =>
      rw [Except.ok.injEq, eq_comm]
      exact (and_iff_right ⟨callId, hwhole⟩).symm
    | breaksOff hbreaks =>
      exact iff_of_false nofun fun ⟨⟨_, hwhole⟩, _⟩ => hwhole.not_breaksOff hbreaks
    | refused hwhole hbreaks => exact iff_of_false nofun fun h => hwhole h.1
  · cases hgathers with
    | whole hwhole => exact iff_of_false nofun fun h => hwhole.not_breaksOff h.1
    | breaksOff hbreaks =>
      rw [Except.error.injEq, Error.incompleteCall.injEq, eq_comm]
      exact (and_iff_right hbreaks).symm
    | refused hwhole hbreaks => exact iff_of_false nofun fun h => hbreaks h.1
  · cases hgathers with
    | @whole callId hwhole => exact iff_of_false nofun fun h => h.1 ⟨callId, hwhole⟩
    | breaksOff hbreaks => exact iff_of_false nofun fun h => h.2 hbreaks
    | refused hwhole hbreaks => exact iff_of_true ⟨_, rfl⟩ ⟨hwhole, hbreaks⟩

end RemoteCall
