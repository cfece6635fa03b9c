import RemoteCall.Proofs.Ndr.Fits

/-! Streams of several values. Each step is read where it was written, whatever steps came before,
since both sides have moved over the same bytes and nothing is left waiting between two steps. -/

namespace RemoteCall.Ndr

/-- What one step of a stream reads. -/
inductive Step
  | u8
  | u16
  | u32
  | u64
  | bytes (n : Nat)
  | text
  /-- A construct with everything its pointers refer to. -/
  | construct (layout : Layout)
  /-- A pointer parameter. -/
  | unique (layout : Layout)

namespace Step

def read (g : Grammar) : Step → Read Value
  | .u8 => return .u8 (← readU8)
  | .u16 => return .u16 (← readU16)
  | .u32 => return .u32 (← readU32)
  | .u64 => return .u64 (← readU64)
  | .bytes n => return .bytes (← takeBytes n .run)
  | .text => return .text (← readText)
  | .construct layout => return .construct (← readConstruct g layout)
  | .unique layout => return .ofParameter (← readUnique g layout)

/-- A value that matches a step. -/
inductive Matches (g : Grammar) : Step → Value → Prop
  | u8 (n : UInt8) : Matches g .u8 (.u8 n)
  | u16 (n : UInt16) : Matches g .u16 (.u16 n)
  | u32 (n : UInt32) : Matches g .u32 (.u32 n)
  | u64 (n : UInt64) : Matches g .u64 (.u64 n)
  | bytes (bs : List UInt8) : Matches g (.bytes bs.length) (.bytes bs)
  | text {t : Text} (h : t.Storable) : Matches g .text (.text t)
  | construct {layout : Layout} {v : Value} (h : Fits g layout v) :
      Matches g (.construct layout) (.construct v)
  | null (layout : Layout) : Matches g (.unique layout) .null
  | unique {layout : Layout} {v : Value} (h : Fits g layout v) :
      Matches g (.unique layout) (.unique v)

end Step

/-- Adds values one after the other, and tells how long the stream is after each of them. -/
def Encoder.addAll (e : Encoder) : List Value → Except Error (List Nat × Encoder)
  | [] => return ([], e)
  | v :: vs => do
    let next ← e.add v
    let (lengths, last) ← next.addAll vs
    return (next.length :: lengths, last)

/-- Reads step after step, and tells the position after each of them. -/
def readSteps (g : Grammar) : List Step → Read (List (Value × Nat))
  | [] => return []
  | s :: ss => do
    let v ← s.read g
    let position := (← get).position
    let more ← readSteps g ss
    return (v, position) :: more

/-! ## One step -/

/-- All of a value is put at once, and read back from the same place. -/
def Passes {α : Type} (w : PartWriter) (r : Read α) (a : α) : Prop :=
  ∀ c : Cursor, c.nextId ≠ 0 → ∃ bs c', w c = .ok ⟨bs, [], c'⟩ ∧ c.Advances c' bs ∧
    ∀ (rest : List UInt8) (d : Decoder), d.rest = bs ++ rest → d.position = c.length →
      ∃ d', r d = .ok a d' ∧ d'.rest = rest ∧ d'.position = c'.length

section Passes

variable {α β : Type} {g : Grammar} {w : PartWriter} {r : Read α} {a : α} {l : Layout} {v : Value}

theorem Passes.map (k : α → β) (h : Passes w r a) : Passes w (do return k (← r)) (k a) := by
  intro c hc
  obtain ⟨bs, c', hw, hadvance, hread⟩ := h c hc
  refine ⟨bs, c', hw, hadvance, fun rest d hrest hposition => ?_⟩
  obtain ⟨d', ha, hplace⟩ := hread rest d hrest hposition
  exact ⟨d', Read.bind_ok_iff.mpr ⟨a, d', ha, rfl⟩, hplace⟩

theorem passes_put {alignment : Nat} {bs : List UInt8}
    (hr : ∀ position, Gets r position (paddingBytes alignment position ++ bs) a) :
    Passes (put alignment bs) r a := by
  intro c _
  obtain ⟨c', hput, hadvance⟩ := put_advances alignment bs c
  refine ⟨_, c', hput, hadvance, fun rest d hrest hposition => ?_⟩
  exact ⟨_, (hr c.length).read hrest hposition, rfl, hadvance.length.symm⟩

/-- A tree is there to be read as a construct, whatever was read before. -/
theorem readConstruct_of_readTree {d : Decoder} {p : Place}
    (h : readTree g (d.rest.length + 1) id l d.place = .ok v p) :
    ∃ d', readConstruct g l d = .ok v d' ∧ d'.place = p := by
  have hfollows := readConstruct_follows g l (d.rest.length + 1) d (Nat.lt_succ_self _)
  rw [h] at hfollows
  cases hread : readConstruct g l d with
  | ok w d' =>
    rw [hread] at hfollows
    obtain ⟨hplace, rfl, -⟩ := hfollows
    exact ⟨d', rfl, hplace⟩
  | error e d' =>
    rw [hread] at hfollows
    cases hfollows

theorem Writes.construct {w : Writer} (h : Writes g w l v) (c : Cursor) (hc : c.nextId ≠ 0) :
    ∃ bs c', w c = .ok (bs, c') ∧ c.Advances c' bs ∧
      ∀ (rest : List UInt8) (d : Decoder), d.rest = bs ++ rest → d.position = c.length →
        ∃ d', readConstruct g l d = .ok v d' ∧ d'.rest = rest ∧ d'.position = c'.length := by
  obtain ⟨bs, c', hw, hadvance, htree⟩ := h c hc
  refine ⟨bs, c', hw, hadvance, fun rest d hrest hposition => ?_⟩
  have hplace : d.place = ⟨bs ++ rest, c.length⟩ := by
    unfold Decoder.place
    rw [hrest, hposition]
  have hread : readTree g (d.rest.length + 1) id l d.place = .ok v ⟨rest, c'.length⟩ := by
    rw [hplace, hrest]
    exact htree _ id rest (Nat.lt_succ_self _)
  obtain ⟨d', hd, hplace'⟩ := readConstruct_of_readTree hread
  exact ⟨d', hd, congrArg Place.rest hplace', congrArg Place.position hplace'⟩

theorem Fits.passes_construct (h : Fits g l v) :
    Passes (Value.construct v).fixed (readConstruct g l) v := by
  intro c hc
  obtain ⟨bs, c', hw, hadvance, hread⟩ := h.writes.construct c hc
  refine ⟨bs, c', ?_, hadvance, hread⟩
  change (v.write c >>= fun written => _) = _
  rw [hw]
  rfl

/-- What a pointer parameter with that id refers to. -/
def readReferred (g : Grammar) (l : Layout) (id : UInt32) : Read (Option Value) := do
  if id = 0 then return none
  return some (← readConstruct g l)

theorem readUnique_eq (g : Grammar) (l : Layout) :
    readUnique g l = readU32 >>= readReferred g l := rfl

theorem passes_null (g : Grammar) (l : Layout) :
    Passes Value.null.fixed (readUnique g l) none := by
  rw [readUnique_eq]
  exact passes_put fun position => (gets_u32 0 position).bind_nil (gets_pure none)

theorem Fits.passes_unique (h : Fits g l v) :
    Passes (Value.unique v).fixed (readUnique g l) (some v) := by
  intro c hc
  let c₁ := (putReferentId c).2
  have hid : c.Advances c₁ (paddingBytes 4 c.length ++ dword c.nextId) :=
    ⟨rfl, fun _ => Cursor.followingId_ne_zero c.nextId⟩
  obtain ⟨bs, c', hw, hadvance, hread⟩ := h.writes.construct c₁ (hid.nextId hc)
  refine ⟨(paddingBytes 4 c.length ++ dword c.nextId) ++ bs, c', ?_, hid.trans hadvance, ?_⟩
  · change (v.write c₁ >>= fun written => _) = _
    rw [hw]
    rfl
  · intro rest d hrest hposition
    rw [List.append_assoc] at hrest
    let d₁ : Decoder := { d with rest := bs ++ rest, position := c₁.length }
    have hparameter : readU32 d = .ok c.nextId d₁ :=
      (gets_u32 c.nextId c.length).read hrest hposition
    obtain ⟨d', hd, hplace⟩ := hread rest d₁ rfl rfl
    refine ⟨d', ?_, hplace⟩
    rw [readUnique_eq]
    refine Read.bind_ok_iff.mpr ⟨_, _, hparameter, ?_⟩
    unfold readReferred
    rw [if_neg hc]
    exact Read.bind_ok_iff.mpr ⟨v, d', hd, rfl⟩

end Passes

theorem Step.Matches.passes {g : Grammar} {s : Step} {v : Value} (h : s.Matches g v) :
    Passes v.fixed (s.read g) v := by
  cases h with
  | u8 n =>
    refine passes_put fun position => ?_
    rw [paddingBytes_one]
    exact (gets_u8 n position).map Value.u8
  | u16 n => exact passes_put fun position => (gets_u16 n position).map Value.u16
  | u32 n => exact passes_put fun position => (gets_u32 n position).map Value.u32
  | u64 n => exact passes_put fun position => (gets_u64 n position).map Value.u64
  | bytes bs =>
    refine passes_put fun position => ?_
    rw [paddingBytes_one]
    exact (gets_takeBytes rfl .run position).map Value.bytes
  | text h => exact passes_put fun position => (gets_text h position).map Value.text
  | construct h => exact h.passes_construct.map Value.construct
  | null l => exact (passes_null g l).map Value.ofParameter
  | unique h => exact h.passes_unique.map Value.ofParameter

/-! ## All steps -/

/-- A stream in which nothing waits. -/
structure Encoder.Settled (e : Encoder) : Prop where
  waiting : e.waiting = []
  length : e.cursor.length = e.length
  nextId : e.cursor.nextId ≠ 0

theorem Encoder.settled_empty : empty.Settled := ⟨rfl, rfl, by decide⟩

/-- Step: the bytes of one value are added at the end, and are read from there. -/
theorem Step.Matches.add {g : Grammar} {s : Step} {v : Value} {e : Encoder} (h : s.Matches g v)
    (he : e.Settled) : ∃ bs e', e.add v = .ok e' ∧ e'.Settled ∧ e'.bytes = e.bytes ++ bs ∧
      ∀ (rest : List UInt8) (d : Decoder), d.rest = bs ++ rest → d.position = e.length →
        ∃ d', s.read g d = .ok v d' ∧ d'.rest = rest ∧ d'.position = e'.length := by
  obtain ⟨bs, c', hv, hadvance, hread⟩ := h.passes e.cursor he.nextId
  have hlength : c'.length = (e.bytes ++ bs).length := by
    rw [hadvance.length, he.length, List.length_append]
    rfl
  refine ⟨bs, ⟨e.bytes ++ bs, e.waiting ++ [], c'⟩, ?_, ?_, rfl, fun rest d hrest hposition => ?_⟩
  · unfold Encoder.add
    rw [hv]
    rfl
  · exact ⟨by rw [he.waiting]; rfl, hlength, hadvance.nextId he.nextId⟩
  · obtain ⟨d', hd, hrest', hposition'⟩ := hread rest d hrest (hposition.trans he.length.symm)
    exact ⟨d', hd, hrest', hposition'.trans hlength⟩

/-- Run: the bytes of all values are added, and all steps are read. -/
theorem readSteps_of_addAll {g : Grammar} (steps : List (Step × Value)) {e : Encoder}
    (he : e.Settled) (h : ∀ s ∈ steps, s.1.Matches g s.2) :
    ∃ bs lengths e', e.addAll (steps.map (·.2)) = .ok (lengths, e') ∧ e'.Settled ∧
      e'.bytes = e.bytes ++ bs ∧ lengths.length = steps.length ∧
      ∀ (rest : List UInt8) (d : Decoder), d.rest = bs ++ rest → d.position = e.length →
        ∃ d', readSteps g (steps.map (·.1)) d = .ok ((steps.map (·.2)).zip lengths) d' ∧
          d'.rest = rest := by
  induction steps generalizing e with
  | nil =>
    refine ⟨[], [], e, rfl, he, (List.append_nil _).symm, rfl, fun rest d hrest _ => ?_⟩
    exact ⟨d, rfl, hrest⟩
  | cons s steps ih =>
    obtain ⟨bs, e₁, hadd, he₁, hbytes₁, hread₁⟩ := (h s (List.mem_cons_self ..)).add he
    obtain ⟨cs, lengths, e₂, hall, he₂, hbytes₂, hcount, hread₂⟩ :=
      ih he₁ fun s' hs => h s' (List.mem_cons_of_mem s hs)
    refine ⟨bs ++ cs, e₁.length :: lengths, e₂, ?_, he₂, ?_, congrArg (· + 1) hcount,
      fun rest d hrest hposition => ?_⟩
    · rw [List.map_cons, Encoder.addAll, hadd]
      change (e₁.addAll (steps.map (·.2)) >>= fun last => _) = _
      rw [hall]
      rfl
    · rw [hbytes₂, hbytes₁, List.append_assoc]
    · rw [List.append_assoc] at hrest
      obtain ⟨d₁, hd₁, hrest₁, hposition₁⟩ := hread₁ (cs ++ rest) d hrest hposition
      obtain ⟨d₂, hd₂, hrest₂⟩ := hread₂ rest d₁ hrest₁ hposition₁
      refine ⟨d₂, ?_, hrest₂⟩
      rw [List.map_cons, List.map_cons, readSteps, List.zip_cons_cons, ← hposition₁]
      refine Read.bind_ok_iff.mpr ⟨_, _, hd₁, ?_⟩
      refine Read.bind_ok_iff.mpr ⟨_, _, rfl, ?_⟩
      exact Read.bind_ok_iff.mpr ⟨_, _, hd₂, rfl⟩

/-- **Round trip of a stream.** Every list of steps with matching values can be written. Reading the
steps from the finished bytes gives every value back, the position after each step is the length of
the stream after that value, and nothing remains. -/
theorem readSteps_finish (g : Grammar) (steps : List (Step × Value))
    (h : ∀ s ∈ steps, s.1.Matches g s.2) :
    ∃ lengths e bytes d, Encoder.empty.addAll (steps.map (·.2)) = .ok (lengths, e) ∧
      e.finish = .ok bytes ∧ lengths.length = steps.length ∧
      readSteps g (steps.map (·.1)) (.ofBytes bytes) = .ok ((steps.map (·.2)).zip lengths) d ∧
      d.rest = [] := by
  obtain ⟨bs, lengths, e, hadd, he, hbytes, hcount, hread⟩ :=
    readSteps_of_addAll steps Encoder.settled_empty h
  have hfinish : e.finish = .ok bs := by
    unfold Encoder.finish
    rw [he.waiting, hbytes]
    change Except.ok (([] ++ bs) ++ []) = _
    rw [List.nil_append, List.append_nil]
  obtain ⟨d, hd, hrest⟩ := hread [] (.ofBytes bs) (List.append_nil bs).symm rfl
  exact ⟨lengths, e, bs, d, hadd, hfinish, hcount, hd, hrest⟩

/-- Lists of numbers, and trees with a string at each node. -/
def sampleGrammar : Grammar := fun name =>
  if name = "list" then .record [.u16, .link "list"]
  else .record [.link "tree", .pointer .text, .link "tree"]

theorem sampleGrammar_list : sampleGrammar "list" = .record [.u16, .link "list"] := if_pos rfl

theorem sampleGrammar_tree :
    sampleGrammar "tree" = .record [.link "tree", .pointer .text, .link "tree"] :=
  if_neg (by decide)

def sampleList : Value := .record [.u16 1, .pointer (.record [.u16 2, .null])]

def sampleLeaf (s : String) : Value := .record [.null, .pointer (.text (.ofString s)), .null]

def sampleTree : Value := .record [.pointer (sampleLeaf "a"), .null, .pointer (sampleLeaf "b")]

def sampleSteps : List (Step × Value) :=
  [(.u8, .u8 7),
    (.construct (.record [.u8, .array (.link "list"), .link "tree"]),
      .construct (.record [.u8 1, .array [.pointer sampleList, .null], .pointer sampleTree])),
    (.bytes 3, .bytes [1, 2, 3]),
    (.unique (.record [.link "tree"]), .unique (.record [.pointer sampleTree])),
    (.unique .text, .null),
    (.text, .text (.counted "x")),
    (.u64, .u64 9)]

theorem fits_sampleList : Fits sampleGrammar (sampleGrammar "list") sampleList := by
  have hlast : Fits sampleGrammar (sampleGrammar "list") (.record [.u16 2, .null]) := by
    rw [sampleGrammar_list]
    exact .record (.cons (.u16 2) (.cons (.linkNull "list") .nil))
  rw [sampleGrammar_list]
  exact .record (.cons (.u16 1) (.cons (.link hlast) .nil))

theorem fits_sampleTree : Fits sampleGrammar (sampleGrammar "tree") sampleTree := by
  have hleaf : ∀ s, (Text.ofString s).Storable →
      Fits sampleGrammar (sampleGrammar "tree") (sampleLeaf s) := by
    intro s hs
    rw [sampleGrammar_tree]
    exact .record (.cons (.linkNull "tree") (.cons (.pointer (.text hs))
      (.cons (.linkNull "tree") .nil)))
  have ha := hleaf "a" ⟨by decide, nofun⟩
  have hb := hleaf "b" ⟨by decide, nofun⟩
  rw [sampleGrammar_tree]
  exact .record (.cons (.link ha) (.cons (.null .text) (.cons (.link hb) .nil)))

theorem sampleSteps_match : ∀ s ∈ sampleSteps, s.1.Matches sampleGrammar s.2 := by
  have hitems : ∀ v ∈ [Value.pointer sampleList, .null], Fits sampleGrammar (.link "list") v := by
    intro v hv
    rcases List.mem_pair.mp hv with rfl | rfl
    · exact .link fits_sampleList
    · exact .linkNull "list"
  intro s hs
  simp only [sampleSteps, List.mem_cons, List.not_mem_nil, or_false] at hs
  rcases hs with rfl | rfl | rfl | rfl | rfl | rfl | rfl
  · exact .u8 7
  · exact .construct (.record (.cons (.u8 1) (.cons (.array (by decide) hitems)
      (.cons (.link fits_sampleTree) .nil))))
  · exact .bytes [1, 2, 3]
  · exact .unique (.record (.cons (.link fits_sampleTree) .nil))
  · exact .null .text
  · exact .text ⟨by decide, fun _ => by decide⟩
  · exact .u64 9

theorem readSteps_sampleSteps :
    (∀ s ∈ sampleSteps, s.1.Matches sampleGrammar s.2) ∧
      ∃ lengths e bytes d, Encoder.empty.addAll (sampleSteps.map (·.2)) = .ok (lengths, e) ∧
        e.finish = .ok bytes ∧ lengths.length = sampleSteps.length ∧
        readSteps sampleGrammar (sampleSteps.map (·.1)) (.ofBytes bytes)
          = .ok ((sampleSteps.map (·.2)).zip lengths) d ∧
        d.rest = [] :=
  ⟨sampleSteps_match, readSteps_finish sampleGrammar sampleSteps sampleSteps_match⟩

end RemoteCall.Ndr
