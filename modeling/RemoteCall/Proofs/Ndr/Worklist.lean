import RemoteCall.Proofs.Ndr.Strides

/-! Targets as work to be done. Reading a target puts its own targets in front of all others, so the
list of what is left to do grows with the data. Nothing bounds the work beforehand; it ends because
each target that is added was paid for with four bytes (`Works.length_le`). What it ends with is
what `readTargets` gives (`works_readTargets`). -/

namespace RemoteCall.Ndr

/-- What is left to do for the targets of a construct. -/
inductive Task
  | read (p : Pending)
  | fill (p : Pending) (v : Value)

namespace Task

/-- One step: the fixed part of a target is read, or put into its slot. It gives the tasks that are
to be done before all others. -/
def perform (g : Grammar) : Task → Read (List Task)
  | read p => do
    let (v, nested) ← collecting (wrapping (inReferent p.id) (p.layout.read g))
    return nested.map read ++ [fill p v]
  | fill p v => do
    modify fun d => { d with arena := d.arena.fill p.slot p.layout v }
    return []

/-- A target is read and filled, a value only filled. -/
def load : List Task → Nat
  | [] => 0
  | read _ :: ts => load ts + 2
  | fill .. :: ts => load ts + 1

theorem load_append (front ts : List Task) : load (front ++ ts) = load front + load ts := by
  induction front with
  | nil => simp [load]
  | cons t front ih => cases t <;> simp only [List.cons_append, load, ih] <;> omega

theorem load_map_read (ps : List Pending) : load (ps.map read) = 2 * ps.length := by
  induction ps with
  | nil => rfl
  | cons p ps ih =>
    rw [List.map_cons, load, ih, List.length_cons]
    omega

end Task

/-- Tasks are done one after the other. The states that are passed on the way are listed. -/
inductive Works (g : Grammar) :
    List Task → Decoder → List Decoder → EStateM.Result Error Decoder Unit → Prop
  | done (d : Decoder) : Works g [] d [] (.ok () d)
  | step {t : Task} {ts more : List Task} {d d' : Decoder} {states : List Decoder}
      {result : EStateM.Result Error Decoder Unit} (h : t.perform g d = .ok more d')
      (hrest : Works g (more ++ ts) d' states result) : Works g (t :: ts) d (d' :: states) result
  | fail {t : Task} {ts : List Task} {d d' : Decoder} {e : Error}
      (h : t.perform g d = .error e d') : Works g (t :: ts) d [d'] (.error e d')

variable {g : Grammar} {ts : List Task} {d d' : Decoder} {states : List Decoder}
  {result : EStateM.Result Error Decoder Unit}

/-- The decoder that a result leaves. -/
def left {α : Type} : EStateM.Result Error Decoder α → Decoder
  | .ok _ d => d
  | .error _ d => d

/-- There is one way to do the work. -/
theorem Works.unique {states' : List Decoder} {result' : EStateM.Result Error Decoder Unit}
    (h : Works g ts d states result) (h' : Works g ts d states' result') :
    states' = states ∧ result' = result := by
  induction h generalizing states' with
  | done d =>
    cases h'
    exact ⟨rfl, rfl⟩
  | step h _ ih =>
    cases h' with
    | step h' hrest' =>
      cases h.symm.trans h'
      obtain ⟨hstates, hresult⟩ := ih hrest'
      exact ⟨congrArg _ hstates, hresult⟩
    | fail h' => cases h.symm.trans h'
  | fail h =>
    cases h' with
    | step h' => cases h.symm.trans h'
    | fail h' =>
      cases h.symm.trans h'
      exact ⟨rfl, rfl⟩

/-! ## Steps and runs -/

theorem stays_perform {start : Nat} (t : Task) : Stays start (t.perform g) := by
  cases t with
  | read p => exact ((p.layout.stays_read g).wrapping p.id).collecting.map
  | fill p v => exact (stays_fill p v).bind fun _ => .pure []

/-- Step: what is passed is a stride away. -/
theorem Works.strides (h : Works g ts d states result) : (d :: states).IsChain Strides := by
  induction h with
  | done d => exact .singleton d
  | step h _ ih => exact .cons_cons ((stays_perform _).ok _ _ _ (Nat.zero_le _) h) ih
  | fail h => exact .cons_cons ((stays_perform _).error _ _ _ (Nat.zero_le _) h).1 (.singleton _)

/-- The last state is the one that is left. -/
theorem Works.getLast? (h : Works g ts d states result) :
    (d :: states).getLast? = some (left result) := by
  induction h with
  | done d => rfl
  | step _ _ ih => rw [List.getLast?_cons_cons, ih]
  | fail _ => rfl

/-- A fixed part took four bytes for each of the targets that it announced. -/
theorem rest_of_collecting {l : Layout} {read : Value × List Pending}
    (h : collecting (l.read g) d = .ok read d') :
    d'.rest.length + 4 * read.2.length ≤ d.rest.length := by
  rw [collecting_eq] at h
  cases hread : l.read g { d with pending := [] } <;> rw [hread] at h <;> cases h
  obtain ⟨us, ⟨⟨bs, hrest, -, hbytes⟩, hpending, -⟩, -⟩ := l.announces_read g _ _ _ hread
  have hrest := congrArg List.length hrest
  rw [List.length_append] at hrest
  have hcount := congrArg (fun ps : List Pending => (ps.map fun t => (t.id, t.layout)).length)
    hpending
  simp only [List.nil_append, map_announced, List.length_map] at hcount
  dsimp only at hrest ⊢
  omega

/-- What happens to its errors does not matter to a read that succeeds. -/
theorem collecting_of_wrapping {wrap : Error → Error} {α : Type} {r : Read α}
    {read : α × List Pending} (h : collecting (wrapping wrap r) d = .ok read d') :
    collecting r d = .ok read d' := by
  rw [collecting_eq] at h ⊢
  unfold wrapping at h
  cases hr : r { d with pending := [] } <;> rw [hr] at h <;> cases h
  rfl

/-- What is still to be done, with the bytes that may yet announce more. -/
def toDo (ts : List Task) (d : Decoder) : Nat := d.rest.length + Task.load ts

/-- Step: each task leaves less to do. -/
theorem toDo_perform {t : Task} {more : List Task} (h : t.perform g d = .ok more d') :
    toDo (more ++ ts) d' < toDo (t :: ts) d := by
  cases t with
  | read p =>
    obtain ⟨read, d₁, hread, hmore⟩ := exists_of_bind_eq_ok h
    cases hmore
    have hrest := rest_of_collecting (collecting_of_wrapping hread)
    simp only [toDo, Task.load_append, Task.load_map_read, Task.load]
    omega
  | fill p v =>
    cases h
    simp [toDo, Task.load]

/-- Run: so the work ends, after no more steps than there was to do. -/
theorem Works.length_le (h : Works g ts d states result) : states.length ≤ toDo ts d := by
  induction h with
  | done d => exact Nat.zero_le _
  | step h _ ih =>
    rw [List.length_cons]
    exact Nat.le_trans (Nat.succ_le_succ ih) (toDo_perform h)
  | @fail t ts d d' e h =>
    rw [List.length_singleton, toDo]
    cases t <;> simp only [Task.load] <;> omega

/-! ## What the work ends with -/

/-- These tasks, in front of any others, have that result. -/
def Does (g : Grammar) (front : List Task) (d : Decoder) :
    EStateM.Result Error Decoder Unit → Prop
  | .ok _ d' => ∃ passed, ∀ ts states result, Works g ts d' states result →
      Works g (front ++ ts) d (passed ++ states) result
  | .error e d' => ∃ passed, ∀ ts, Works g (front ++ ts) d passed (.error e d')

namespace Does

variable {front back more : List Task} {t : Task} {r : Read Unit} {s : Unit → Read Unit}

theorem nil : Does g [] d (.ok () d) := ⟨[], fun _ _ _ h => h⟩

theorem append (h : Does g front d (r d))
    (h' : ∀ d', r d = .ok () d' → Does g back d' (s () d')) :
    Does g (front ++ back) d ((r >>= s) d) := by
  cases hr : r d with
  | ok u d' =>
    rw [bind_of_eq_ok hr]
    have hback := h' d' hr
    rw [hr] at h
    obtain ⟨passed, hfront⟩ := h
    cases hs : s () d' with
    | ok u' d'' =>
      rw [hs] at hback
      obtain ⟨passed', hback⟩ := hback
      refine ⟨passed ++ passed', fun ts states result hts => ?_⟩
      rw [List.append_assoc, List.append_assoc]
      exact hfront _ _ _ (hback ts states result hts)
    | error e d'' =>
      rw [hs] at hback
      obtain ⟨passed', hback⟩ := hback
      refine ⟨passed ++ passed', fun ts => ?_⟩
      rw [List.append_assoc]
      exact hfront _ _ _ (hback ts)
  | error e d' =>
    rw [bind_of_eq_error hr]
    rw [hr] at h
    obtain ⟨passed, hfront⟩ := h
    refine ⟨passed, fun ts => ?_⟩
    rw [List.append_assoc]
    exact hfront (back ++ ts)

theorem step {x : EStateM.Result Error Decoder Unit} (ht : t.perform g d = .ok more d')
    (h : Does g more d' x) : Does g [t] d x := by
  cases x with
  | ok u d'' =>
    obtain ⟨passed, hmore⟩ := h
    exact ⟨d' :: passed, fun ts states result hts => .step ht (hmore ts states result hts)⟩
  | error e d'' =>
    obtain ⟨passed, hmore⟩ := h
    exact ⟨d' :: passed, fun ts => .step ht (hmore ts)⟩

theorem fail {e : Error} (ht : t.perform g d = .error e d') : Does g [t] d (.error e d') :=
  ⟨[d'], fun _ => .fail ht⟩

theorem works {x : EStateM.Result Error Decoder Unit} (h : Does g front d x) :
    ∃ states, Works g front d states x := by
  rw [← List.append_nil front]
  cases x with
  | ok u d' =>
    obtain ⟨passed, hfront⟩ := h
    exact ⟨passed ++ [], hfront [] [] _ (.done d')⟩
  | error e d' =>
    obtain ⟨passed, hfront⟩ := h
    exact ⟨passed, hfront []⟩

end Does

/-- Targets in a row, when each of them is read by its task. -/
theorem forM_does {depth : Nat} (hread : ∀ p d, d.rest.length < depth →
      Does g [.read p] d (readTarget g depth p d)) (ps : List Pending)
    (hdepth : 0 < ps.length → d.rest.length < depth) :
    Does g (ps.map .read) d (ps.forM (readTarget g depth) d) := by
  induction ps generalizing d with
  | nil => exact .nil
  | cons p ps ih =>
    have hd := hdepth (Nat.succ_pos _)
    refine Does.append (r := readTarget g depth p) (hread p d hd) fun d' hp => ih fun _ => ?_
    have hshort := ((stays_readTarget depth p).ok d () d' (Nat.zero_le _) hp).onward.length_le
    exact Nat.lt_of_le_of_lt hshort hd

theorem readTarget_does (depth : Nat) (p : Pending) (d : Decoder)
    (hdepth : d.rest.length < depth) : Does g [.read p] d (readTarget g depth p d) := by
  induction depth generalizing p d with
  | zero => omega
  | succ depth ih =>
    rw [readTarget_succ]
    cases hread : collecting (wrapping (inReferent p.id) (p.layout.read g)) d with
    | error e d' =>
      rw [bind_of_eq_error hread]
      exact .fail (bind_of_eq_error hread)
    | ok read d' =>
      rw [bind_of_eq_ok hread]
      have hrest := rest_of_collecting (collecting_of_wrapping hread)
      -- Each target took four bytes, so the depth that is left is enough for it.
      have hnested := forM_does (d := d') ih read.2 fun _ => by omega
      exact .step (bind_of_eq_ok hread) (hnested.append fun d₂ _ => .step rfl .nil)

/-- **Reading targets is work that ends.** -/
theorem works_readTargets (ps : List Pending) (d : Decoder) :
    ∃ states, Works g (ps.map .read) d states (readTargets g ps d) :=
  (forM_does (readTarget_does _) ps fun _ => Nat.lt_succ_self d.rest.length).works

end RemoteCall.Ndr
