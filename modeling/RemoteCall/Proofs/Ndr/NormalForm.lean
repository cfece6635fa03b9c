import RemoteCall.Proofs.Ndr.Bound
import RemoteCall.Proofs.Ndr.Readable

/-! Writing as a normal form of what can be read. What a construct was read from and what is written
for it spell the same pieces, and so does any string that differs from it in gaps and ids alone. Thus
encoding it gives as many bytes, which differ only where the value does not tell them
(`encode_of_readConstruct`), and other gaps and ids are read as the same value
(`readConstruct_of_agree`). -/

namespace RemoteCall.Ndr

section Constructs

variable {g : Grammar} {l : Layout} {v : Value} {d d' e : Decoder}

theorem readConstruct_of_spells {bs rest : List UInt8} (hfits : Fits g l v)
    (hrest : e.rest = bs ++ rest) (hspells : Spells e.position (l.whole g v) bs) :
    ∃ e', readConstruct g l e = .ok v e' ∧ e'.rest = rest ∧
      e'.position = e.position + bs.length := by
  obtain ⟨e', hread, hplace⟩ := readConstruct_ok_iff_spans.mpr
    ⟨hfits, bs, (⟨hrest, rfl⟩ : Takes bs e.place ⟨rest, e.position + bs.length⟩), hspells⟩
  exact ⟨e', hread, congrArg Place.rest hplace, congrArg Place.position hplace⟩

theorem spells_of_readConstruct {data : List UInt8}
    (h : readConstruct g l (.ofBytes data) = .ok v d) :
    Spells 0 (l.whole g v) (data.take d.position) ∧ (data.take d.position).length = d.position := by
  obtain ⟨bs, ⟨hrest, hposition⟩, hspells⟩ := spans_of_readConstruct h
  change data = bs ++ d.rest at hrest
  change d.position = 0 + bs.length at hposition
  rw [Nat.zero_add] at hposition
  have htake : data.take d.position = bs := by rw [hrest, hposition, List.take_left]
  rw [htake]
  exact ⟨hspells, hposition.symm⟩

/-- **What was read is written in normal form.** Whatever bytes a construct is read from, it can be
written, in as many bytes, and these are read as the same value up to their end. They differ from the
bytes that it was read from only in padding, in ids that are not null in either of them, in the
greatest counts and offsets of strings, in the first of two levels, and in the id of the pointer of a
level that is not known. -/
theorem encode_of_readConstruct {data : List UInt8}
    (h : readConstruct g l (.ofBytes data) = .ok v d) :
    ∃ out, v.encode = .ok out ∧ out.length = d.position ∧
      (∃ d', readConstruct g l (.ofBytes out) = .ok v d' ∧ d'.rest = [] ∧
        d'.position = d.position) ∧
      Spells 0 (l.whole g v) (data.take d.position) ∧ Spells 0 (l.whole g v) out ∧
      (roles 0 (l.whole g v)).length = d.position ∧
      ∀ i, i < d.position → out[i]? ≠ data[i]? →
        ∃ r, (roles 0 (l.whole g v))[i]? = some r ∧ r ≠ .content := by
  obtain ⟨hdata, hlength⟩ := spells_of_readConstruct h
  obtain ⟨out, c, hwrite, hadvance, hread⟩ :=
    (fits_of_readConstruct h).writes.construct .start (by decide)
  obtain ⟨d', hd', hrest', hposition'⟩ := hread [] (.ofBytes out) (List.append_nil out).symm rfl
  have houtlength : d'.position = out.length := by
    rw [hposition', hadvance.length]
    exact Nat.zero_add _
  obtain ⟨hout, -⟩ := spells_of_readConstruct hd'
  rw [houtlength, List.take_length] at hout
  have hroles : (roles 0 (l.whole g v)).length = d.position := hdata.length_eq.symm.trans hlength
  have hsame : out.length = d.position := hout.length_eq.trans hroles
  refine ⟨out, ?_, hsame, ⟨d', hd', hrest', houtlength.trans hsame⟩, hdata, hout, hroles, ?_⟩
  · unfold Value.encode
    rw [hwrite]
    rfl
  · intro i hi hne
    have hlt : i < (roles 0 (l.whole g v)).length := hroles ▸ hi
    refine ⟨_, List.getElem?_eq_getElem hlt, fun hcontent => hne ?_⟩
    have hkept := hdata.agree hout i _ (List.getElem?_eq_getElem hlt) hcontent
    rw [hkept, List.getElem?_take_of_lt hi]

theorem readAll_cons_of_ok {ls : List Layout} {vs : List Value} {d'' : Decoder}
    (h : l.read g d = .ok v d') (hrest : Layout.readAll g ls d' = .ok vs d'') :
    Layout.readAll g (l :: ls) d = .ok (v :: vs) d'' :=
  Read.bind_ok_iff.mpr ⟨v, d', h, Read.bind_ok_iff.mpr ⟨vs, d'', hrest, rfl⟩⟩

/-- A string behind a pointer, and a level that is written twice and not known. -/
def sampleAside : Layout := .record [.pointer .text, .u16, .choice true [(1, .u32)]]

def sampleAsideValue : Value :=
  .record [.pointer (.text (.ofString "a")), .u16 7, .choice true 5 .null]

/-- The value with an offset, another first level, a pointer for the level, and filled gaps. One more
byte follows. -/
def sampleAsideData : List UInt8 :=
  [9, 0, 0, 0, 7, 0, 1, 1, 8, 8, 8, 8, 5, 0, 0, 0, 6, 0, 0, 0, 9, 0, 0, 0, 1, 0, 0, 0, 2, 0, 0, 0,
    97, 0, 0, 0, 255]

/-- The decoder when so many bytes of the fixed part are read. -/
def sampleAsideAt (n : Nat) : Decoder := ⟨sampleAsideData.drop n, n, [⟨9, 0, .text⟩], [⟨9, none⟩]⟩

theorem readConstruct_sampleAside :
    readConstruct .empty sampleAside (.ofBytes sampleAsideData) =
      .ok sampleAsideValue ⟨[255], 36, [], [⟨9, none⟩]⟩ := by
  have hpointer : (Layout.pointer .text).read .empty (.ofBytes sampleAsideData) =
      .ok (.deferred 0) (sampleAsideAt 4) := rfl
  have hnumber : Layout.u16.read .empty (sampleAsideAt 4) = .ok (.u16 7) (sampleAsideAt 6) := rfl
  have hchoice : (Layout.choice true [(1, .u32)]).read .empty (sampleAsideAt 6) =
      .ok (.choice true 5 .null) (sampleAsideAt 20) := rfl
  have hmembers : Layout.readAll .empty [.pointer .text, .u16, .choice true [(1, .u32)]]
      (.ofBytes sampleAsideData) =
      .ok [.deferred 0, .u16 7, .choice true 5 .null] (sampleAsideAt 20) :=
    readAll_cons_of_ok hpointer (readAll_cons_of_ok hnumber (readAll_cons_of_ok hchoice rfl))
  have htargets : readTargets .empty [⟨9, 0, .text⟩] { sampleAsideAt 20 with pending := [] } =
      .ok () ⟨[255], 36, [], [⟨9, some (.text, .text (.ofString "a"))⟩]⟩ := rfl
  exact readConstruct_of_steps (Read.bind_ok_iff.mpr ⟨_, _, hmembers, rfl⟩) htargets rfl

theorem encode_of_readConstruct_sampleAside :
    (∃ d, readConstruct .empty sampleAside (.ofBytes sampleAsideData) = .ok sampleAsideValue d) ∧
    ∃ out, sampleAsideValue.encode = .ok out ∧ out.length = 36 ∧
      ∃ d', readConstruct .empty sampleAside (.ofBytes out) = .ok sampleAsideValue d' ∧
        d'.rest = [] := by
  have hread := readConstruct_sampleAside
  obtain ⟨out, hout, hlength, ⟨d', hd', hrest, -⟩, -⟩ := encode_of_readConstruct hread
  exact ⟨⟨_, hread⟩, out, hout, hlength, d', hd', hrest⟩

/-- **Ids and gaps make no difference.** The bytes that a construct is read from spell its pieces.
Any other bytes at the same position that agree with them wherever they matter, and have no null id
where they have none, are read as the same value up to the same position: whether ids are the same,
go down or come again, and whatever stands in the gaps. -/
theorem readConstruct_of_agree (h : readConstruct g l d = .ok v d') :
    d'.position = d.position + (roles d.position (l.whole g v)).length ∧
    Spells d.position (l.whole g v) (d.rest.take (roles d.position (l.whole g v)).length) ∧
    ∀ e : Decoder, e.position = d.position →
      (roles d.position (l.whole g v)).length ≤ e.rest.length →
      Agree Role.Matters (roles d.position (l.whole g v)) d.rest e.rest →
      NonNull (roles d.position (l.whole g v)) e.rest →
      ∃ e', readConstruct g l e = .ok v e' ∧ e'.position = d'.position ∧
        e'.rest = e.rest.drop (roles d.position (l.whole g v)).length := by
  obtain ⟨bs, ⟨hrest, hposition⟩, hspells⟩ := spans_of_readConstruct h
  change d.rest = bs ++ d'.rest at hrest
  change d'.position = d.position + bs.length at hposition
  change Spells d.position _ bs at hspells
  have hlength := hspells.length_eq
  have htake : d.rest.take (roles d.position (l.whole g v)).length = bs := by
    rw [hrest, ← hlength, List.take_left]
  refine ⟨by rw [hposition, hlength], by rw [htake]; exact hspells, ?_⟩
  intro e hsame hle hagree hids
  obtain ⟨cs, rest, he, hcs, -⟩ := exists_append_of_length (Nat.add_sub_of_le hle).symm
  rw [he] at hids
  rw [hrest, he, ← List.append_nil (roles _ _), agree_append hlength hcs] at hagree
  have hrevised := hspells.revise (hcs.trans hlength.symm) hagree.1 hids
  rw [← hsame] at hrevised
  obtain ⟨e', hread, hrest', hposition'⟩ :=
    readConstruct_of_spells (fits_of_readConstruct h) he hrevised
  refine ⟨e', hread, ?_, ?_⟩
  · rw [hposition', hposition, hsame, hcs, hlength]
  · rw [hrest', he, ← hcs, List.drop_left]

end Constructs

/-- Two pointers with one id, and the same with ids that go down and with another gap. -/
theorem readConstruct_of_agree_sampleTwins :
    ∃ d', readConstruct .empty sampleTwins (.ofBytes sampleTwinsData) = .ok sampleTwinsValue d' ∧
      ∃ e', readConstruct .empty sampleTwins
        (.ofBytes [3, 0, 0, 0, 2, 0, 0, 0, 7, 0, 8, 8, 9, 0, 0, 0]) = .ok sampleTwinsValue e' ∧
        e'.position = d'.position := by
  have hread := readConstruct_sampleTwins
  obtain ⟨-, -, hagree⟩ := readConstruct_of_agree hread
  obtain ⟨e', he', hposition, -⟩ := hagree
    (.ofBytes [3, 0, 0, 0, 2, 0, 0, 0, 7, 0, 8, 8, 9, 0, 0, 0]) rfl (by decide) (by decide)
    (by decide)
  exact ⟨_, hread, e', he', hposition⟩

end RemoteCall.Ndr
