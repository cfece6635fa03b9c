import RemoteCall.Proofs.Ndr.Onward

/-! Whatever bytes a construct is read from, its value fits the layout: no pointer is left to be
bound, at any depth, and every string and array can be written again (`fits_of_readConstruct`). -/

namespace RemoteCall.Ndr

/-! ## Filling an open value -/

/-- What the slots from `slot` on hold fits the targets. -/
def Fills (g : Grammar) (σ : Nat → Value) (slot : Nat) (targets : List Layout) : Prop :=
  ∀ i l, targets[i]? = some l → Fits g l (σ (slot + i))

theorem Fills.split {g : Grammar} {σ : Nat → Value} {slot : Nat} {ls ms : List Layout}
    (h : Fills g σ slot (ls ++ ms)) : Fills g σ slot ls ∧ Fills g σ (slot + ls.length) ms := by
  refine ⟨fun i l hi => ?_, fun i l hi => ?_⟩
  · have hlt := (List.getElem?_eq_some_iff.mp hi).1
    exact h i l (by rw [List.getElem?_append_left hlt, hi])
  · have hi' : (ls ++ ms)[ls.length + i]? = some l := by
      rw [List.getElem?_append_right (Nat.le_add_right ..), Nat.add_sub_cancel_left, hi]
    rw [Nat.add_assoc]
    exact h _ l hi'

theorem Fills.singleton {g : Grammar} {σ : Nat → Value} {slot : Nat} {l : Layout}
    (h : Fills g σ slot [l]) : Fits g l (σ slot) := h 0 l rfl

theorem FitsAll.of_replicate {g : Grammar} {l : Layout} {n : Nat} {vs : List Value}
    (h : FitsAll g (List.replicate n l) vs) : ∀ v ∈ vs, Fits g l v := by
  induction n generalizing vs with
  | zero =>
    cases h
    exact nofun
  | succ n ih =>
    cases h with
    | cons hv hvs => exact List.forall_mem_cons.mpr ⟨hv, ih hvs⟩

section Fill

variable {g : Grammar} {σ : Nat → Value}

mutual

theorem Open.fits : ∀ {l : Layout} {v : Value} {slot : Nat} {targets : List Layout},
    Open g l v slot targets → v.Counted → Fills g σ slot targets → Fits g l (v.fill σ)
  | _, _, _, _, .u8 n _, _, _ => .u8 n
  | _, _, _, _, .u16 n _, _, _ => .u16 n
  | _, _, _, _, .u32 n _, _, _ => .u32 n
  | _, _, _, _, .text _ _, hcount, _ => .text hcount
  | _, _, _, _, .array h, hcount, hσ => by
    rw [Value.fill_array]
    exact .array (by rw [List.length_map]; exact hcount.1) (h.fits hcount.2 hσ).of_replicate
  | _, _, _, _, .record h, hcount, hσ => by
    rw [Value.fill_record]
    exact .record (h.fits hcount hσ)
  | _, _, _, _, .null target _, _, _ => .null target
  | _, _, _, _, .deferred _ _, _, hσ => .pointer hσ.singleton
  | _, _, _, _, .linkNull name _, _, _ => .linkNull name
  | _, _, _, _, .linkDeferred _ _, _, hσ => .link hσ.singleton
  | _, _, _, _, .choiceNull twice arms level _, _, _ => .choiceNull twice arms level
  | _, _, _, _, .choiceDeferred twice _ harm, _, hσ => .choice twice harm hσ.singleton

theorem OpenAll.fits : ∀ {ls : List Layout} {vs : List Value} {slot : Nat} {targets : List Layout},
    OpenAll g ls vs slot targets → Value.AreCounted vs → Fills g σ slot targets →
    FitsAll g ls (vs.map (Value.fill σ))
  | _, _, _, _, .nil _, _, _ => .nil
  | _, _, _, _, .cons h hrest, hcount, hσ =>
    .cons (h.fits hcount.1 hσ.split.1) (hrest.fits hcount.2 hσ.split.2)

end

end Fill

/-! ## Trees -/

section Trees

variable {g : Grammar} {wrap : Error → Error} {l : Layout} {v : Value} {p p' : Place}

/-- Each target took the four bytes of its id. -/
theorem open_of_readFixed {ts : List (UInt32 × Layout)}
    (h : l.readFixed g wrap p = .ok (v, ts) p') :
    Open g l v 0 (ts.map (·.2)) ∧ v.Counted ∧ p'.rest.length + 4 * ts.length ≤ p.rest.length := by
  obtain ⟨d, hread, hts, rfl⟩ := exists_of_readFixed h
  obtain ⟨us, hprogress, hopen⟩ := l.announces_read g _ _ _ hread
  have htargets : ts = us := by
    rw [hts, hprogress.pending]
    exact map_announced _ us
  obtain ⟨bs, hrest, -, hlength⟩ := hprogress.moves
  have hlengths := congrArg List.length hrest
  rw [List.length_append] at hlengths
  change p.rest.length = bs.length + d.rest.length at hlengths
  refine ⟨?_, ((l.gives_read g).ok _ _ _ hread).2, ?_⟩
  · rw [htargets]
    exact hopen
  · rw [htargets]
    change d.rest.length + 4 * us.length ≤ p.rest.length
    omega

/-- Reads in a row, each of them with no more bytes to come than the one before. -/
theorem forall_of_mapM {α β : Type} {f : α → TreeRead β} {P : α → β → Prop} {n : Nat}
    (h : ∀ a p b p', p.rest.length < n → f a p = .ok b p' →
      P a b ∧ p'.rest.length ≤ p.rest.length)
    {as : List α} {bs : List β} (hn : 0 < as.length → p.rest.length < n)
    (has : as.mapM f p = .ok bs p') : List.Forall₂ P as bs := by
  induction as generalizing p bs with
  | nil =>
    cases has
    exact .nil
  | cons a as ih =>
    have hp := hn (Nat.succ_pos _)
    rw [List.mapM_cons] at has
    obtain ⟨b, p₁, hb, has⟩ := exists_of_bind_eq_ok has
    obtain ⟨bs, p₂, hbs, has⟩ := exists_of_bind_eq_ok has
    cases has
    obtain ⟨hab, hle⟩ := h a p b p₁ hp hb
    exact .cons hab (ih (fun _ => by omega) hbs)

theorem fills_branch {ts : List (UInt32 × Layout)} {trees : List Value}
    (h : List.Forall₂ (fun t v => Fits g t.2 v) ts trees) :
    Fills g (branch trees) 0 (ts.map (·.2)) := by
  intro i l hi
  rw [Nat.zero_add]
  induction h generalizing i with
  | nil => cases hi
  | cons hv _ ih =>
    cases i with
    | zero =>
      cases hi
      exact hv
    | succ i => exact ih i hi

/-- Step and run in one, down to any depth that is enough. -/
theorem fits_of_readTree {depth : Nat} (hdepth : p.rest.length < depth)
    (h : readTree g depth wrap l p = .ok v p') : Fits g l v := by
  induction depth generalizing wrap l v p p' with
  | zero => omega
  | succ depth ih =>
    rw [readTree_succ] at h
    obtain ⟨⟨w, ts⟩, p₁, hfixed, h⟩ := exists_of_bind_eq_ok h
    obtain ⟨trees, p₂, htrees, h⟩ := exists_of_bind_eq_ok h
    cases h
    obtain ⟨hopen, hcount, hrest⟩ := open_of_readFixed hfixed
    refine hopen.fits hcount (fills_branch (forall_of_mapM (n := depth) ?_ ?_ htrees))
    · intro t p v p' hp hv
      have hgives := gives_readTree (g := g) depth (fun _ => inData_inReferent t.1) t.2
      exact ⟨ih hp hv, (hgives.ok p v p' hv).1.length_le⟩
    · intro hts
      omega

end Trees

/-- **What a construct is read as fits its layout.** -/
theorem fits_of_readConstruct {g : Grammar} {l : Layout} {v : Value} {d d' : Decoder}
    (h : readConstruct g l d = .ok v d') : Fits g l v :=
  fits_of_readTree (Nat.lt_succ_self _)
    ((readConstruct_ok_iff (Nat.lt_succ_self _)).mp ⟨d', h, rfl⟩)

end RemoteCall.Ndr
