import RemoteCall.Proofs.Ndr.Tree

/-! What a read needs of the bytes in front of it. It is exact if it takes the same bytes and gives
the same whatever follows them, and if it fails on any part of them, for a reason that it finds no
later than where this part ends. Exact reads are put together with `Exact.bind`; the fixed part of
any layout is read exactly (`Layout.exact_read`). -/

namespace RemoteCall.Ndr

/-- Something that stands at a place in the bytes. -/
class Placed (σ : Type) where
  place : σ → Place

instance : Placed Place := ⟨id⟩

instance : Placed Decoder := ⟨Decoder.place⟩

export Placed (place)

section Sequences

variable {σ α β : Type} {r : EStateM Error σ α} {f : α → EStateM Error σ β}

theorem bind_of_eq_ok {s s' : σ} {a : α} (h : r s = .ok a s') : (r >>= f) s = f a s' := by
  change EStateM.bind r f s = _
  rw [EStateM.bind, h]

theorem bind_of_eq_error {s s' : σ} {e : Error} (h : r s = .error e s') :
    (r >>= f) s = .error e s' := by
  change EStateM.bind r f s = _
  rw [EStateM.bind, h]

theorem exists_of_bind_eq_ok {s s'' : σ} {b : β} (h : (r >>= f) s = .ok b s'') :
    ∃ a s', r s = .ok a s' ∧ f a s' = .ok b s'' := by
  cases hr : r s with
  | ok a s' =>
    rw [bind_of_eq_ok hr] at h
    exact ⟨a, s', rfl, h⟩
  | error e s' =>
    rw [bind_of_eq_error hr] at h
    cases h

end Sequences

section Exact

variable {σ : Type} [Placed σ] {α β : Type}

/-- A read that took the bytes `bs` does so again from `t`. With a part of them it fails, at an
offset that is not behind this part. -/
structure Repeats (R : σ → σ → Prop) (r : EStateM Error σ α) (bs : List UInt8) (position : Nat)
    (a : α) (s' t : σ) : Prop where
  extended : ∀ more, (place t).rest = bs ++ more →
    ∃ t', r t = .ok a t' ∧ (place t').rest = more ∧ R s' t'
  cut : ∀ k, k < bs.length → (place t).rest = bs.take k →
    ∃ offset defect t', r t = .error (.malformedData offset defect) t' ∧ offset ≤ position + k

/-- The read takes as many bytes as it needs, and needs all that it takes. The states `R` are alike
to it but for the bytes that are to come. -/
def Exact (R : σ → σ → Prop) (r : EStateM Error σ α) : Prop :=
  ∀ s a s', r s = .ok a s' → ∃ bs, (place s).rest = bs ++ (place s').rest ∧
    (place s').position = (place s).position + bs.length ∧
    ∀ t, R s t → Repeats R r bs (place s).position a s' t

variable {R : σ → σ → Prop} {r : EStateM Error σ α} {f : α → EStateM Error σ β}

/-- A read that moves nothing. -/
theorem Exact.still (h : ∀ s a s', r s = .ok a s' → place s' = place s ∧
    ∀ t, R s t → ∃ t', r t = .ok a t' ∧ place t' = place t ∧ R s' t') : Exact R r := by
  intro s a s' hr
  obtain ⟨hplace, hrepeats⟩ := h s a s' hr
  refine ⟨[], by rw [hplace]; rfl, by rw [hplace]; rfl, fun t ht => ⟨fun more hmore => ?_, nofun⟩⟩
  obtain ⟨t', hr', hplace', ht'⟩ := hrepeats t ht
  exact ⟨t', hr', by rw [hplace']; exact hmore, ht'⟩

theorem Exact.pure (a : α) : Exact R (pure a : EStateM Error σ α) := by
  refine Exact.still ?_
  rintro s _ _ ⟨⟩
  exact ⟨rfl, fun t ht => ⟨t, rfl, rfl, ht⟩⟩

/-- What never succeeds takes nothing. -/
theorem Exact.of_fails (h : ∀ s, ∃ e s', r s = .error e s') : Exact R r := by
  intro s a s' hr
  obtain ⟨e, s'', he⟩ := h s
  cases he.symm.trans hr

/-- Of the bytes of two reads, either the first one lacks some, or only the second one does. -/
theorem Exact.bind (hr : Exact R r) (hf : ∀ a, Exact R (f a)) : Exact R (r >>= f) := by
  intro s b s'' hbind
  obtain ⟨a, s', ha, hb⟩ := exists_of_bind_eq_ok hbind
  obtain ⟨bs, hrest, hposition, hfirst⟩ := hr s a s' ha
  obtain ⟨cs, hrest', hposition', hsecond⟩ := hf a s' b s'' hb
  refine ⟨bs ++ cs, ?_, ?_, fun t ht => ⟨fun more hmore => ?_, fun k hk hcut => ?_⟩⟩
  · rw [hrest, hrest', List.append_assoc]
  · rw [hposition', hposition, List.length_append, Nat.add_assoc]
  · rw [List.append_assoc] at hmore
    obtain ⟨t', hr', hmore', ht'⟩ := (hfirst t ht).extended _ hmore
    obtain ⟨t'', hf', hmore'', ht''⟩ := (hsecond t' ht').extended _ hmore'
    exact ⟨t'', (bind_of_eq_ok hr').trans hf', hmore'', ht''⟩
  · rw [List.length_append] at hk
    by_cases hless : k < bs.length
    · rw [List.take_append_of_le_length (Nat.le_of_lt hless)] at hcut
      obtain ⟨offset, defect, t', hr', hoffset⟩ := (hfirst t ht).cut k hless hcut
      exact ⟨offset, defect, t', bind_of_eq_error hr', hoffset⟩
    · obtain ⟨j, rfl⟩ := Nat.exists_eq_add_of_le (Nat.le_of_not_lt hless)
      rw [List.take_length_add_append] at hcut
      obtain ⟨t', hr', hcut', ht'⟩ := (hfirst t ht).extended _ hcut
      obtain ⟨offset, defect, t'', hf', hoffset⟩ := (hsecond t' ht').cut j (by omega) hcut'
      exact ⟨offset, defect, t'', (bind_of_eq_ok hr').trans hf', by omega⟩

theorem Exact.map {k : α → β} (hr : Exact R r) : Exact R (do return k (← r)) :=
  hr.bind fun a => .pure (k a)

theorem Exact.mapM {γ : Type} {read : γ → EStateM Error σ α} (h : ∀ c, Exact R (read c))
    (cs : List γ) : Exact R (cs.mapM read) := by
  induction cs with
  | nil => exact .pure []
  | cons c cs ih =>
    rw [List.mapM_cons]
    exact (h c).bind fun a => ih.bind fun as => .pure (a :: as)

end Exact

/-! ## Single reads -/

/-- The decoders are alike to a read that moves on from where it stands. -/
structure Overlooks (R : Decoder → Decoder → Prop) : Prop where
  position : ∀ {d e}, R d e → e.position = d.position
  move : ∀ {d e}, R d e → ∀ rest rest' n,
    R { d with rest, position := d.position + n } { e with rest := rest', position := e.position + n }

section Reads

variable {R : Decoder → Decoder → Prop} {α : Type}

theorem exact_fail (offset : Nat) (defect : DataDefect) : Exact R (fail offset defect : Read α) :=
  .of_fails fun d => ⟨_, d, rfl⟩

theorem takeBytes_append {bs more : List UInt8} {d : Decoder} (item : DataItem)
    (h : d.rest = bs ++ more) : takeBytes bs.length item d =
      .ok bs { d with rest := more, position := d.position + bs.length } := by
  rw [takeBytes, h, splitExact?_append rfl]

theorem takeBytes_of_short {n : Nat} {d : Decoder} (item : DataItem) (h : d.rest.length < n) :
    takeBytes n item d =
      .error (.malformedData d.position (.short item n d.rest.length)) d := by
  rw [takeBytes, splitExact?_eq, if_neg (Nat.not_le_of_lt h)]

theorem exact_readTimes {read : Read α} (h : Exact R read) (n : Nat) :
    Exact R (readTimes read n) := by
  induction n with
  | zero => exact .pure []
  | succ n ih => exact h.bind fun _ => ih.bind fun _ => .pure _

variable (hR : Overlooks R)
include hR

theorem exact_takeBytes (n : Nat) (item : DataItem) : Exact R (takeBytes n item) := by
  intro d bs d' h
  have hn : n ≤ d.rest.length := by
    refine Nat.le_of_not_lt fun hshort => ?_
    rw [takeBytes_of_short item hshort] at h
    cases h
  obtain ⟨more, hmore⟩ : ∃ more, d.rest = d.rest.take n ++ more :=
    ⟨_, (List.take_append_drop n d.rest).symm⟩
  have hlength : (d.rest.take n).length = n := List.length_take_of_le hn
  have htake := takeBytes_append item hmore
  rw [hlength] at htake
  cases htake.symm.trans h
  refine ⟨d.rest.take n, hmore, ?_, fun e he => ⟨fun more' hmore' => ?_, fun k hk hcut => ?_⟩⟩
  · rw [hlength]
    rfl
  · have htake' := takeBytes_append item hmore'
    rw [hlength] at htake'
    exact ⟨_, htake', rfl, hR.move he _ _ _⟩
  · rw [hlength] at hk
    have hshort : e.rest.length < n := by
      have hrest := congrArg List.length hcut
      rw [List.length_take] at hrest
      exact Nat.lt_of_le_of_lt (Nat.le_trans (Nat.le_of_eq hrest) (Nat.min_le_left ..)) hk
    refine ⟨_, _, e, takeBytes_of_short item hshort, ?_⟩
    rw [hR.position he]
    exact Nat.le_add_right ..

/-- A read that only looks at its position. -/
theorem Exact.position {f : Nat → Read α} (hf : ∀ n, Exact R (f n)) :
    Exact R (do f (← get).position) := by
  intro d a d' h
  obtain ⟨bs, hrest, hposition, hrepeats⟩ := hf d.position d a d' h
  refine ⟨bs, hrest, hposition, fun e he => ?_⟩
  have hsame : (do f (← get).position : Read α) e = f d.position e :=
    congrArg (fun n => f n e) (hR.position he)
  obtain ⟨hextended, hcut⟩ := hrepeats e he
  refine ⟨fun more hmore => ?_, fun k hk hshort => ?_⟩
  · rw [hsame]
    exact hextended more hmore
  · rw [hsame]
    exact hcut k hk hshort

theorem exact_align (alignment : Nat) : Exact R (align alignment) :=
  Exact.position hR (f := fun n => do
    let _ ← takeBytes ((alignment - n % alignment) % alignment) .padding) fun _ =>
      (exact_takeBytes hR _ _).bind fun _ => .pure ()

theorem exact_readU8 : Exact R readU8 := (exact_takeBytes hR 1 .u8).bind fun _ => .pure _

theorem exact_readU16 : Exact R readU16 :=
  (exact_align hR 2).bind fun _ => (exact_takeBytes hR 2 .u16).bind fun _ => .pure _

theorem exact_readU32 : Exact R readU32 :=
  (exact_align hR 4).bind fun _ => (exact_takeBytes hR 4 .u32).bind fun _ => .pure _

theorem exact_readCharacters (start : Nat) (count : UInt32) :
    Exact R (readCharacters start count) := by
  refine (exact_takeBytes hR _ _).bind fun raw => ?_
  cases Text.ofUnits? (unitsOfBytes raw) with
  | none => exact exact_fail _ _
  | some t => exact .pure t

theorem exact_readText : Exact R readText := by
  rw [readText_eq]
  refine Exact.position hR fun start => (exact_readU32 hR).bind fun max =>
    (exact_readU32 hR).bind fun offset => (exact_readU32 hR).bind fun actual => ?_
  dsimp only
  split
  · exact (exact_fail _ _).bind fun _ => exact_readCharacters hR start actual
  · exact exact_readCharacters hR start actual

theorem exact_readArray {item : Read Value} (h : Exact R item) : Exact R (readArray item) :=
  (exact_readU32 hR).bind fun count => (exact_readTimes h count.toNat).map

theorem exact_readLevel (twice : Bool) : Exact R (readLevel twice) := by
  cases twice with
  | false => exact exact_readU32 hR
  | true => exact (exact_readU32 hR).bind fun _ => exact_readU32 hR

end Reads

theorem exact_dropArm {R : Decoder → Decoder → Prop} (twice : Bool) (level : UInt32) (offset : Nat)
    (id : UInt32) : Exact R (dropArm twice level offset id) := by
  unfold dropArm
  dsimp only
  split
  · exact (exact_fail _ _).bind fun _ => .pure _
  · exact .pure _

/-! ## Fixed parts -/

/-- The decoders are the same but for the bytes that are to come. -/
structure Decoder.SameBut (d e : Decoder) : Prop where
  position : e.position = d.position
  pending : e.pending = d.pending
  arena : e.arena = d.arena

theorem Decoder.SameBut.overlooks : Overlooks Decoder.SameBut where
  position h := h.position
  move h _ _ n := ⟨congrArg (· + n) h.position, h.pending, h.arena⟩

/-- Which slot a target is given depends on the slots that there are. -/
theorem exact_readPointer (target : Layout) : Exact Decoder.SameBut (readPointer target) := by
  rw [readPointer_eq]
  refine (exact_readU32 Decoder.SameBut.overlooks).bind fun id => ?_
  by_cases hid : id = 0
  · rw [hid, announce_zero]
    exact .pure Value.null
  · refine .still fun d v d' h => ?_
    rw [announce_of_ne hid] at h
    cases h
    refine ⟨rfl, fun e he => ?_⟩
    have hsame := announce_of_ne hid target e
    rw [he.arena] at hsame
    exact ⟨_, hsame, rfl, he.position, congrArg (· ++ _) he.pending, rfl⟩

theorem exact_readArm (twice : Bool) (arms : List (UInt32 × Layout)) (level : UInt32) :
    Exact Decoder.SameBut (readArm twice arms level) := by
  unfold readArm
  cases Layout.arm? arms level with
  | some target => exact (exact_readPointer target).map
  | none =>
    have hdrop : ∀ offset, Exact Decoder.SameBut (readU32 >>= dropArm twice level offset) :=
      fun offset => (exact_readU32 Decoder.SameBut.overlooks).bind fun id =>
        exact_dropArm twice level offset id
    exact Exact.position Decoder.SameBut.overlooks hdrop

theorem exact_readChoice (twice : Bool) (arms : List (UInt32 × Layout)) :
    Exact Decoder.SameBut (readChoice twice arms) := by
  rw [readChoice_eq]
  exact (exact_readLevel Decoder.SameBut.overlooks twice).bind fun level =>
    exact_readArm twice arms level

namespace Layout

mutual

theorem exact_read (g : Grammar) : ∀ l : Layout, Exact Decoder.SameBut (l.read g)
  | .u8 => (exact_readU8 Decoder.SameBut.overlooks).map
  | .u16 => (exact_readU16 Decoder.SameBut.overlooks).map
  | .u32 => (exact_readU32 Decoder.SameBut.overlooks).map
  | .text => (exact_readText Decoder.SameBut.overlooks).map
  | .array item => exact_readArray Decoder.SameBut.overlooks (exact_read g item)
  | .record members => (exact_readAll g members).map
  | .pointer target => exact_readPointer target
  | .link name => exact_readPointer (g name)
  | .choice twice arms => exact_readChoice twice arms

theorem exact_readAll (g : Grammar) : ∀ ls : List Layout, Exact Decoder.SameBut (readAll g ls)
  | [] => .pure []
  | l :: ls => (exact_read g l).bind fun _ => (exact_readAll g ls).bind fun _ => .pure _

end

end Layout

end RemoteCall.Ndr
