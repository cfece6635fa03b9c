import RemoteCall.Ndr.Marshal
import RemoteCall.Proofs.Ndr.Exact
import RemoteCall.Proofs.Ndr.Stream

/-! Data that ends too soon. A construct is read exactly, with all that its pointers refer to, and so
is a parameter of any type and a message that is put together of parameters. From this it follows
what a read makes of all data at once (`Exact.failsClosed`): it looks at nothing behind the bytes it
takes, and when one of them is missing it fails. -/

namespace RemoteCall.Ndr

/-! ## Trees -/

/-- The error stays where it is in the data. -/
def KeepsOffset (wrap : Error → Error) : Prop :=
  ∀ offset defect, ∃ defect', wrap (.malformedData offset defect) = .malformedData offset defect'

theorem keepsOffset_id : KeepsOffset id := fun _ defect => ⟨defect, rfl⟩

theorem keepsOffset_inReferent (id : UInt32) : KeepsOffset (inReferent id) :=
  fun _ defect => ⟨.inReferent id defect, rfl⟩

/-- The places have the same position, whatever is to come. -/
def SamePosition {σ : Type} [Placed σ] (s t : σ) : Prop := (place t).position = (place s).position

theorem samePosition_overlooks : Overlooks fun d e : Decoder => SamePosition d e where
  position h := h
  move h _ _ n := congrArg (· + n) h

variable {g : Grammar}

theorem readFixed_of_ok {wrap : Error → Error} {l : Layout} {p : Place} {v : Value} {d : Decoder}
    (h : l.read g p.decoder = .ok v d) :
    l.readFixed g wrap p = .ok (v, d.pending.map fun t => (t.id, t.layout)) d.place := by
  rw [Layout.readFixed, h]

theorem readFixed_of_error {wrap : Error → Error} {l : Layout} {p : Place} {e : Error} {d : Decoder}
    (h : l.read g p.decoder = .error e d) : l.readFixed g wrap p = .error (wrap e) d.place := by
  rw [Layout.readFixed, h]

theorem exists_of_readFixed {wrap : Error → Error} {l : Layout} {p p' : Place} {v : Value}
    {ts : List (UInt32 × Layout)} (h : l.readFixed g wrap p = .ok (v, ts) p') :
    ∃ d, l.read g p.decoder = .ok v d ∧ ts = d.pending.map (fun t => (t.id, t.layout)) ∧
      p' = d.place := by
  cases hread : l.read g p.decoder with
  | error e d =>
    rw [readFixed_of_error hread] at h
    cases h
  | ok v d =>
    rw [readFixed_of_ok hread] at h
    cases h
    exact ⟨d, rfl, rfl, rfl⟩

theorem exact_readFixed {wrap : Error → Error} (hwrap : KeepsOffset wrap) (l : Layout) :
    Exact SamePosition (l.readFixed g wrap) := by
  rintro p ⟨v, ts⟩ p' h
  obtain ⟨d, hread, rfl, rfl⟩ := exists_of_readFixed h
  obtain ⟨bs, hrest, hposition, hrepeats⟩ := l.exact_read g p.decoder v d hread
  refine ⟨bs, hrest, hposition, fun q hq => ?_⟩
  obtain ⟨hextended, hcut⟩ := hrepeats q.decoder ⟨hq, rfl, rfl⟩
  refine ⟨fun more hmore => ?_, fun k hk hshort => ?_⟩
  · obtain ⟨d', hread', hrest', hsame⟩ := hextended more hmore
    refine ⟨d'.place, ?_, hrest', hsame.position⟩
    rw [readFixed_of_ok hread', hsame.pending]
  · obtain ⟨offset, defect, d', hread', hoffset⟩ := hcut k hk hshort
    obtain ⟨defect', hdefect⟩ := hwrap offset defect
    refine ⟨offset, defect', d'.place, ?_, hoffset⟩
    rw [readFixed_of_error hread', hdefect]

/-- Run: down to any depth, a tree is read exactly. -/
theorem exact_readTree (depth : Nat) {wrap : Error → Error} (hwrap : KeepsOffset wrap) (l : Layout) :
    Exact SamePosition (readTree g depth wrap l) := by
  induction depth generalizing wrap l with
  | zero => exact .pure Value.null
  | succ depth ih =>
    rw [readTree_succ]
    refine (exact_readFixed hwrap l).bind fun fixed => ?_
    exact (Exact.mapM (fun t => ih (keepsOffset_inReferent t.1) t.2) fixed.2).bind fun _ => .pure _

/-! ## Constructs -/

section Constructs

variable {l : Layout} {d : Decoder} {depth : Nat} {v : Value} {e : Error} {p : Place}

theorem readConstruct_ok_iff (hdepth : d.rest.length < depth) :
    (∃ d', readConstruct g l d = .ok v d' ∧ d'.place = p) ↔
      readTree g depth id l d.place = .ok v p := by
  have hfollows := readConstruct_follows g l depth d hdepth
  cases htree : readTree g depth id l d.place <;> cases hread : readConstruct g l d <;>
    rw [htree, hread] at hfollows
  · obtain ⟨rfl, rfl, -⟩ := hfollows
    simp
  · cases hfollows
  · cases hfollows
  · simp

theorem readConstruct_error_iff (hdepth : d.rest.length < depth) :
    (∃ d', readConstruct g l d = .error e d' ∧ d'.place = p) ↔
      readTree g depth id l d.place = .error e p := by
  have hfollows := readConstruct_follows g l depth d hdepth
  cases htree : readTree g depth id l d.place <;> cases hread : readConstruct g l d <;>
    rw [htree, hread] at hfollows
  · simp
  · cases hfollows
  · cases hfollows
  · obtain ⟨rfl, rfl⟩ := hfollows
    simp

end Constructs

/-- A construct takes what its tree takes. The depth that is enough for it depends on how many bytes
are to come, so both sides are read down to one that is enough for either. -/
theorem exact_readConstruct (l : Layout) : Exact SamePosition (readConstruct g l) := by
  intro d v d' h
  have htree : ∀ depth, d.rest.length < depth →
      readTree g depth id l d.place = .ok v d'.place :=
    fun depth hdepth => (readConstruct_ok_iff hdepth).mp ⟨d', h, rfl⟩
  obtain ⟨bs, hrest, hposition, -⟩ := exact_readTree (d.rest.length + 1) keepsOffset_id l _ _ _
    (htree _ (Nat.lt_succ_self _))
  refine ⟨bs, hrest, hposition, fun e he => ?_⟩
  have hd : d.rest.length < d.rest.length + e.rest.length + 1 := by omega
  have he' : e.rest.length < d.rest.length + e.rest.length + 1 := by omega
  obtain ⟨bs', hrest', hposition', hrepeats⟩ := exact_readTree _ keepsOffset_id l _ _ _ (htree _ hd)
  have hlength : bs'.length = bs.length := Nat.add_left_cancel (hposition'.symm.trans hposition)
  obtain ⟨rfl, -⟩ := List.append_inj (hrest'.symm.trans hrest) hlength
  obtain ⟨hextended, hcut⟩ := hrepeats e.place he
  refine ⟨fun more hmore => ?_, fun k hk hshort => ?_⟩
  · obtain ⟨p, hp, hpmore, hpposition⟩ := hextended more hmore
    obtain ⟨e', hread, rfl⟩ := (readConstruct_ok_iff he').mpr hp
    exact ⟨e', hread, hpmore, hpposition⟩
  · obtain ⟨offset, defect, p, hp, hoffset⟩ := hcut k hk hshort
    obtain ⟨e', hread, -⟩ := (readConstruct_error_iff he').mpr hp
    exact ⟨offset, defect, e', hread, hoffset⟩

theorem exact_readUnique (l : Layout) : Exact SamePosition (readUnique g l) := by
  rw [readUnique_eq]
  refine (exact_readU32 samePosition_overlooks).bind fun id => ?_
  unfold readReferred
  split
  · exact .pure none
  · exact (exact_readConstruct l).map

/-! ## Parameters -/

section Parameters

variable (α : Type) [Marshal α]

theorem exact_expect (v : Value) : Exact SamePosition (expect α v) := by
  unfold expect
  cases (ofValue? v : Option α) with
  | some a => exact .pure a
  | none => exact .of_fails fun d => ⟨.malformedData d.position .shape, d, rfl⟩

theorem exact_readAs : Exact SamePosition (readAs α) :=
  (exact_readConstruct _).bind fun v => exact_expect α v

theorem exact_readOptional : Exact SamePosition (readOptional α) := by
  refine (exact_readUnique _).bind fun v => ?_
  cases v with
  | none => exact .pure none
  | some v => exact (exact_expect α v).map

end Parameters

/-! ## All data -/

/-- A read of data takes a first part of it. What follows this part makes no difference, and any less
than this part is refused, at an offset that is not behind the data. -/
def FailsClosed {α : Type} (r : Read α) : Prop :=
  ∀ data a d, r (.ofBytes data) = .ok a d →
    d.position ≤ data.length ∧ d.rest = data.drop d.position ∧
    (∀ rest, ∃ d', r (.ofBytes (data.take d.position ++ rest)) = .ok a d' ∧
      d'.position = d.position) ∧
    ∀ k, k < d.position → ∃ offset defect d',
      r (.ofBytes (data.take k)) = .error (.malformedData offset defect) d' ∧ offset ≤ k

theorem Exact.failsClosed {α : Type} {r : Read α} (h : Exact SamePosition r) : FailsClosed r := by
  intro data a d hread
  obtain ⟨bs, hrest, hposition, hrepeats⟩ := h (.ofBytes data) a d hread
  change data = bs ++ d.rest at hrest
  change d.position = 0 + bs.length at hposition
  rw [Nat.zero_add] at hposition
  have htake : data.take d.position = bs := by
    rw [hrest, hposition, List.take_left]
  refine ⟨?_, ?_, fun rest => ?_, fun k hk => ?_⟩
  · rw [hrest, hposition, List.length_append]
    exact Nat.le_add_right ..
  · rw [hrest, hposition, List.drop_left]
  · obtain ⟨d', hread', -, hsame⟩ := (hrepeats (.ofBytes (data.take d.position ++ rest)) rfl).extended
      rest (by rw [htake]; rfl)
    exact ⟨d', hread', hsame⟩
  · rw [hposition] at hk
    have hcut : data.take k = bs.take k := by
      rw [hrest, List.take_append_of_le_length (Nat.le_of_lt hk)]
    obtain ⟨offset, defect, d', hread', hoffset⟩ :=
      (hrepeats (.ofBytes (data.take k)) rfl).cut k hk hcut
    exact ⟨offset, defect, d', hread', Nat.le_trans hoffset (Nat.le_of_eq (Nat.zero_add k))⟩

namespace Message

/-- The same of a message: it is given by a first part of the data, whatever follows this part, and
by no less than it. -/
def FailsClosed (α : Type) [Message α] : Prop :=
  ∀ data (a : α) d, (read : Read α) (.ofBytes data) = .ok a d →
    decode α data = .ok a ∧ d.position ≤ data.length ∧
    (∀ rest, decode α (data.take d.position ++ rest) = .ok a ∧
      ∃ d', (read : Read α) (.ofBytes (data.take d.position ++ rest)) = .ok a d' ∧
        d'.position = d.position) ∧
    ∀ k, k < d.position → ∃ offset defect,
      decode α (data.take k) = .error (.malformedData offset defect) ∧ offset ≤ k

variable {α : Type} [Message α]

theorem decode_of_ok {data : List UInt8} {a : α} {d : Decoder}
    (h : (read : Read α) (.ofBytes data) = .ok a d) : decode α data = .ok a := by
  rw [decode, h]

theorem decode_of_error {data : List UInt8} {e : Error} {d : Decoder}
    (h : (read : Read α) (.ofBytes data) = .error e d) : decode α data = .error e := by
  rw [decode, h]

theorem FailsClosed.of_exact (h : Exact SamePosition (read : Read α)) : FailsClosed α := by
  intro data a d hread
  obtain ⟨hlength, -, hextended, hcut⟩ := h.failsClosed data a d hread
  refine ⟨decode_of_ok hread, hlength, fun rest => ?_, fun k hk => ?_⟩
  · obtain ⟨d', hread', hsame⟩ := hextended rest
    exact ⟨decode_of_ok hread', d', hread', hsame⟩
  · obtain ⟨offset, defect, _, hread', hoffset⟩ := hcut k hk
    exact ⟨offset, defect, decode_of_error hread', hoffset⟩

end Message

end RemoteCall.Ndr
