import RemoteCall.Proofs.Pdu.Decoding

/-! Encoding what was decoded. The header, the body and the verifier of a unit are the bytes that
were read (`Header.framed_of_parse`). Requests and raw units are written as they came, responses but
for one byte that is ignored, and what is written for any unit is read back as it
(`Pdu.encode_of_decode`). -/

namespace RemoteCall

theorem Uuid.encode_decode (o : ByteOrder) {bs : List UInt8} (h : bs.length = 16) :
    (Uuid.decode o bs).encode o = bs := by
  have hlow : (bs.take 4).length = 4 := by simp [h]
  have hmid : ((bs.drop 4).take 2).length = 2 := by simp [h]
  have hhigh : ((bs.drop 6).take 2).length = 2 := by simp [h]
  have hnode : ((bs.drop 8).take 8).length = 8 := by simp [h]
  have hsplit : bs.take 4 ++ (bs.drop 4).take 2 ++ (bs.drop 6).take 2 ++ (bs.drop 8).take 8 = bs := by
    rw [← List.take_add, ← List.take_add, ← List.take_add]
    exact List.take_of_length_le (Nat.le_of_eq h)
  simp only [Uuid.decode, Uuid.encode, o.word32_read32 hlow, o.word16_read16 hmid,
    o.word16_read16 hhigh, ByteOrder.big.word64_read64 hnode, hsplit]

/-! ## Headers -/

/-- What is known once a check has been passed. -/
theorem of_guarded {α : Type} {p : Prop} [Decidable p] {e : Error} {x : Except Error α} {a : α}
    (h : (do if p then throw e else pure (); x) = .ok a) : ¬ p ∧ x = .ok a := by
  split at h
  · cases h
  · exact ⟨‹_›, h⟩

theorem PacketKind.tag_of_ofTag? {n : UInt8} {k : PacketKind} (h : ofTag? n = some k) :
    k.tag = n := by
  apply UInt8.toNat_inj.mp
  unfold ofTag? at h
  split at h <;> cases h
  all_goals
    rename_i hn
    exact hn.symm

theorem take_four {data : List UInt8} (h : 4 ≤ data.length) :
    data.take 4 = [data.getD 0 0, data.getD 1 0, data.getD 2 0, data.getD 3 0] := by
  match data, h with
  | _ :: _ :: _ :: _ :: _, _ => rfl

namespace Header

/-- What a header was read from. -/
structure AtFront (data : List UInt8) (h : Header) : Prop where
  label : ∃ l, Label.ofRepresentation h.representation = .ok l
  bytes : data.take size =
    h.encode h.representation.order h.fragmentLength h.authLength
  within : h.fragmentLength.toNat ≤ data.length
  lengths : size + h.authLength.toNat ≤ h.fragmentLength.toNat

theorem atFront_of_parse {data : List UInt8} {h : Header} (hparse : parse data = .ok h) :
    AtFront data h := by
  obtain ⟨hsize, hrest⟩ := of_guarded hparse
  obtain ⟨l, hl, hrest⟩ := bind_ok_iff.mp hrest
  have ho := Label.integers_eq_order hl
  rw [ho] at hrest
  cases hkind : PacketKind.ofTag? (data.getD 2 0) with
  | none =>
    rw [hkind] at hrest
    cases hrest
  | some kind =>
    rw [hkind] at hrest
    obtain ⟨-, hrest⟩ := of_guarded hrest
    obtain ⟨hwithin, hrest⟩ := of_guarded hrest
    obtain ⟨hlengths, hrest⟩ := of_guarded hrest
    cases hrest
    have hlong : 16 ≤ data.length := Nat.le_of_not_lt hsize
    refine ⟨⟨l, hl⟩, ?_, Nat.le_of_not_lt hwithin, Nat.le_of_not_lt hlengths⟩
    have hfragment : ((data.drop 8).take 2).length = 2 := by simp; omega
    have hauth : ((data.drop 10).take 2).length = 2 := by simp; omega
    have hcall : ((data.drop 12).take 4).length = 4 := by simp; omega
    have hfirst : data.take 4 =
        [data.getD 0 0, data.getD 1 0, kind.tag, data.getD 3 0] := by
      rw [PacketKind.tag_of_ofTag? hkind]
      exact take_four (by omega)
    have hformat : (data.drop 4).take 4 = (representationOf data).bytes := by
      rw [take_four (by simp; omega)]
      simp [representationOf, Representation.bytes, List.getD_eq_getElem?_getD]
    have hsplit : data.take size = data.take 4 ++ (data.drop 4).take 4 ++ (data.drop 8).take 2
        ++ (data.drop 10).take 2 ++ (data.drop 12).take 4 := by
      rw [← List.take_add, ← List.take_add, ← List.take_add, ← List.take_add, size]
    rw [hsplit, hfirst, hformat]
    simp only [encode, announced, ByteOrder.word16_read16 _ hfragment,
      ByteOrder.word16_read16 _ hauth, ByteOrder.word32_read32 _ hcall]

/-- A unit is its header, its body and its verifier. -/
theorem framed_of_parse {data : List UInt8} {h : Header} (hparse : parse data = .ok h) :
    Framed h (Body.start h data).rest (Body.verifier h data)
      (data.take h.fragmentLength.toNat) := by
  obtain ⟨hlabel, hbytes, hwithin, hlengths⟩ := atFront_of_parse hparse
  have hunit : (data.take h.fragmentLength.toNat).length = h.fragmentLength.toNat :=
    List.length_take_of_le hwithin
  have hauth : (Body.verifier h data).length = h.authLength.toNat := by
    rw [Body.verifier, List.length_drop, hunit]
    omega
  refine ⟨hlabel, ?_, ?_⟩
  · rw [hunit, hauth, UInt16.ofNat_toNat, UInt16.ofNat_toNat, ← hbytes]
    -- The unit is cut in front of its verifier and behind its header.
    have hfront : data.take size ++ (Body.start h data).rest =
        data.take (h.fragmentLength.toNat - h.authLength.toNat) := by
      have hcut := List.take_append_drop size
        (data.take (h.fragmentLength.toNat - h.authLength.toNat))
      rwa [List.take_take, Nat.min_eq_left (by omega)] at hcut
    have hcut := List.take_append_drop (h.fragmentLength.toNat - h.authLength.toNat)
      (data.take h.fragmentLength.toNat)
    rw [List.take_take, Nat.min_eq_left (by omega)] at hcut
    rw [hfront]
    exact hcut.symm
  · rw [hunit]
    exact h.fragmentLength.toNat_lt

end Header

/-! ## Bodies -/

namespace Body

section Readers

variable {α β : Type} {p : Parse α} {c c' : Cursor}

theorem bind_eq_ok {f : α → Parse β} {x : β × Cursor} (h : (p >>= f) c = .ok x) :
    ∃ a c', p c = .ok (a, c') ∧ f a c' = .ok x := by
  obtain ⟨⟨a, c'⟩, hp, hf⟩ := bind_ok_iff.mp h
  exact ⟨a, c', hp, hf⟩

/-- Whatever is read can be written again. -/
def Rewritable (p : Parse α) (write : ByteOrder → α → List UInt8) : Prop :=
  ∀ c a c', p c = .ok (a, c') → c'.order = c.order ∧ c.rest = write c.order a ++ c'.rest

theorem take_eq_ok {n : Nat} {bs : List UInt8} (h : take n c = .ok (bs, c')) :
    bs.length = n ∧ c'.order = c.order ∧ c.rest = bs ++ c'.rest := by
  rw [take, splitExact?_eq] at h
  split at h
  · rename_i hsplit
    split at hsplit
    · rename_i hn
      cases hsplit
      cases h
      exact ⟨List.length_take_of_le hn, rfl, (List.take_append_drop n c.rest).symm⟩
    · cases hsplit
  · cases h

theorem skip_eq_ok {n : Nat} (h : skip n c = .ok ((), c')) :
    ∃ bs, bs.length = n ∧ c'.order = c.order ∧ c.rest = bs ++ c'.rest := by
  obtain ⟨bs, _, htake, hpure⟩ := bind_eq_ok h
  cases hpure
  exact ⟨bs, take_eq_ok htake⟩

theorem rewritable_u8 : Rewritable u8 fun _ b => [b] := by
  intro c b c' h
  obtain ⟨bs, _, htake, hpure⟩ := bind_eq_ok h
  cases hpure
  obtain ⟨hn, horder, hrest⟩ := take_eq_ok htake
  obtain ⟨b, rfl⟩ := List.length_eq_one_iff.mp hn
  refine ⟨horder, ?_⟩
  simpa [ByteOrder.decode, ByteOrder.arrange, ofDigits] using hrest

/-- A field of fixed width, whose bytes are told by its value. -/
theorem rewritable_ordered {decode : ByteOrder → List UInt8 → α} {n : Nat}
    {write : ByteOrder → α → List UInt8}
    (hwrite : ∀ o bs, bs.length = n → write o (decode o bs) = bs) :
    Rewritable (do return decode (← order) (← take n)) write := by
  intro c a c' h
  obtain ⟨o, _, horder, h⟩ := bind_eq_ok h
  cases horder
  obtain ⟨bs, _, htake, hpure⟩ := bind_eq_ok h
  cases hpure
  obtain ⟨hn, horder, hrest⟩ := take_eq_ok htake
  rw [hwrite c.order bs hn]
  exact ⟨horder, hrest⟩

theorem rewritable_u16 : Rewritable u16 ByteOrder.word16 :=
  rewritable_ordered fun o _ => o.word16_read16

theorem rewritable_u32 : Rewritable u32 ByteOrder.word32 :=
  rewritable_ordered fun o _ => o.word32_read32

theorem rewritable_uuid : Rewritable uuid fun o u => u.encode o :=
  rewritable_ordered fun o _ => Uuid.encode_decode o

theorem run_eq_ok {h : Header} {data : List UInt8} {a : α} (hrun : run p h data = .ok a) :
    ∃ c', p (start h data) = .ok (a, c') := by
  obtain ⟨⟨a', c'⟩, hp, hpure⟩ := bind_ok_iff.mp hrun
  cases hpure
  exact ⟨c', hp⟩

end Readers

end Body

open Body

/-- The body of a request is what was read. -/
theorem Request.rest_of_parse {h : Header} {auth : List UInt8} {c c' : Cursor} {r : Request}
    (hparse : Request.parse h auth c = .ok (r, c')) :
    r.header = h ∧ r.auth = auth ∧ r.object.isSome = h.flags.hasObject ∧
      c.rest = r.body c.order := by
  obtain ⟨allocHint, c₁, h₁, hparse⟩ := bind_eq_ok hparse
  obtain ⟨contextId, c₂, h₂, hparse⟩ := bind_eq_ok hparse
  obtain ⟨opnum, c₃, h₃, hparse⟩ := bind_eq_ok hparse
  have hobject : ∃ object c₄, object.isSome = h.flags.hasObject ∧ c₄.order = c₃.order ∧
      c₃.rest = objectBytes c₃.order object ++ c₄.rest ∧
      (do return (⟨h, allocHint, contextId, opnum, object, ← remainder, auth⟩ : Request)) c₄ =
        .ok (r, c') := by
    dsimp only at hparse
    cases hflag : h.flags.hasObject with
    | false =>
      rw [hflag, if_neg Bool.false_ne_true] at hparse
      exact ⟨none, c₃, rfl, rfl, rfl, hparse⟩
    | true =>
      rw [hflag, if_pos rfl, map_eq_pure_bind] at hparse
      obtain ⟨object, c₄, h₄, hparse⟩ := bind_eq_ok hparse
      obtain ⟨u, _, huuid, hpure⟩ := bind_eq_ok h₄
      cases hpure
      obtain ⟨ho₄, hr₄⟩ := rewritable_uuid _ _ _ huuid
      exact ⟨some u, c₄, rfl, ho₄, hr₄, hparse⟩
  obtain ⟨object, c₄, hflag, ho₄, hr₄, hparse⟩ := hobject
  obtain ⟨stub, _, hstub, hpure⟩ := bind_eq_ok hparse
  cases hstub
  cases hpure
  obtain ⟨ho₁, hr₁⟩ := rewritable_u32 _ _ _ h₁
  obtain ⟨ho₂, hr₂⟩ := rewritable_u16 _ _ _ h₂
  obtain ⟨ho₃, hr₃⟩ := rewritable_u16 _ _ _ h₃
  refine ⟨rfl, rfl, hflag, ?_⟩
  rw [hr₁, hr₂, hr₃, hr₄, ho₃, ho₂, ho₁]
  simp only [body, List.append_assoc]

/-- The body of a response is what was read, but for one byte. -/
theorem Response.rest_of_parse {h : Header} {auth : List UInt8} {c c' : Cursor} {r : Response}
    (hparse : Response.parse h auth c = .ok (r, c')) :
    r.header = h ∧ r.auth = auth ∧ 8 ≤ c.rest.length ∧ r.body c.order = c.rest.set 7 0 := by
  obtain ⟨allocHint, c₁, h₁, hparse⟩ := bind_eq_ok hparse
  obtain ⟨contextId, c₂, h₂, hparse⟩ := bind_eq_ok hparse
  obtain ⟨cancelCount, c₃, h₃, hparse⟩ := bind_eq_ok hparse
  obtain ⟨_, c₄, h₄, hparse⟩ := bind_eq_ok hparse
  obtain ⟨stub, c₅, h₅, hparse⟩ := bind_eq_ok hparse
  obtain ⟨ho₁, hr₁⟩ := rewritable_u32 _ _ _ h₁
  obtain ⟨ho₂, hr₂⟩ := rewritable_u16 _ _ _ h₂
  obtain ⟨ho₃, hr₃⟩ := rewritable_u8 _ _ _ h₃
  obtain ⟨bs, hbs, ho₄, hr₄⟩ := skip_eq_ok h₄
  obtain ⟨reserved, rfl⟩ := List.length_eq_one_iff.mp hbs
  cases h₅
  cases hparse
  have hfront : (c.order.word32 allocHint ++ c.order.word16 contextId ++ [cancelCount]).length = 7 := by
    simp
  have hrest : c.rest = (c.order.word32 allocHint ++ c.order.word16 contextId ++ [cancelCount])
      ++ (reserved :: c₄.rest) := by
    rw [hr₁, hr₂, hr₃, hr₄, ho₁]
    simp only [List.append_assoc, List.singleton_append]
  refine ⟨rfl, rfl, ?_, ?_⟩
  · rw [hrest, List.length_append, hfront, List.length_cons]
    omega
  · rw [hrest, List.set_append_right 7 0 (Nat.le_of_eq hfront), hfront]
    simp [body]

/-! ## Units -/

namespace Pdu

/-- The unit is read as one of its kind. -/
def DecodedByKind (data : List UInt8) : Pdu → Prop
  | bind p | alterContext p => Proposal.decode data = .ok p
  | bindAck a | alterContextResponse a => Acknowledgement.decode data = .ok a
  | bindNak r => Refusal.decode data = .ok r
  | request r => Request.decode data = .ok r
  | response r => Response.decode data = .ok r
  | fault f => Fault.decode data = .ok f
  | other h bs =>
    Header.parse data = .ok h ∧ bs = (data.take h.fragmentLength.toNat).drop Header.size

theorem decodedByKind_of_decode {data : List UInt8} {u : Pdu} (hdecode : decode data = .ok u) :
    u.DecodedByKind data := by
  obtain ⟨h, hparse, hbody⟩ := bind_ok_iff.mp hdecode
  cases hk : h.kind <;> simp only [hk] at hbody
  case auth3 | shutdown | cancelRequest | orphaned =>
    cases hbody
    exact ⟨hparse, rfl⟩
  all_goals
    obtain ⟨a, ha, hmk⟩ := bind_ok_iff.mp hbody
    cases hmk
    exact ha

end Pdu

theorem Body.order_start (h : Header) (data : List UInt8) :
    (start h data).order = h.representation.order := rfl

/-- A request is written as it came. -/
theorem Request.encode_decoded {data : List UInt8} {r : Request}
    (hdecode : Request.decode data = .ok r) :
    r.encode = .ok (data.take r.header.fragmentLength.toNat) := by
  obtain ⟨h, hexpect, hrun⟩ := bind_ok_iff.mp hdecode
  obtain ⟨c', hbody⟩ := run_eq_ok hrun
  obtain ⟨rfl, hauth, hobject, hrest⟩ := rest_of_parse hbody
  have hframed := Header.framed_of_parse (Header.parse_of_expect hexpect)
  rw [hrest, ← hauth] at hframed
  exact encode_ok_iff.mpr ⟨hobject, hframed⟩

/-- A response is written as it came, but for one byte that is ignored. -/
theorem Response.encode_decoded {data : List UInt8} {r : Response}
    (hdecode : Response.decode data = .ok r) :
    24 ≤ r.header.fragmentLength.toNat ∧
      r.encode = .ok ((data.take r.header.fragmentLength.toNat).set 23 0) := by
  obtain ⟨h, hexpect, hrun⟩ := bind_ok_iff.mp hdecode
  obtain ⟨c', hbody⟩ := run_eq_ok hrun
  obtain ⟨rfl, hauth, hlong, hrest⟩ := rest_of_parse hbody
  have hparse := Header.parse_of_expect hexpect
  obtain ⟨-, -, hwithin, -⟩ := Header.atFront_of_parse hparse
  obtain ⟨hlabel, hbytes, hlt⟩ := Header.framed_of_parse hparse
  have hunit := Framed.length_eq ⟨hlabel, hbytes, hlt⟩
  rw [List.length_take_of_le hwithin] at hunit
  refine ⟨?_, encode_ok_iff.mpr ⟨hlabel, ?_, ?_⟩⟩
  · rw [Header.size] at hunit
    omega
  · rw [List.length_set, hauth, ← order_start r.header data, hrest]
    -- The ignored byte is the eighth one behind the header.
    refine (congrArg (List.set · 23 0) hbytes).trans ?_
    rw [List.append_assoc, List.append_assoc, List.set_append_right 23 0 (by simp [Header.size]),
      Header.length_encode, List.set_append_left _ 0 (by rw [Header.size]; omega)]
    rfl
  · rw [List.length_set]
    exact hlt

/-- A raw unit is written as it came. -/
theorem Pdu.encode_other_of_parse {data : List UInt8} {h : Header}
    (hparse : Header.parse data = .ok h) :
    (Pdu.other h ((data.take h.fragmentLength.toNat).drop Header.size)).encode =
      .ok (data.take h.fragmentLength.toNat) := by
  have hframed := Header.framed_of_parse hparse
  obtain ⟨-, -, hwithin, hlengths⟩ := Header.atFront_of_parse hparse
  have hauth : (Body.verifier h data).length = h.authLength.toNat := by
    rw [Body.verifier, List.length_drop, List.length_take_of_le hwithin]
    omega
  have hraw : (data.take h.fragmentLength.toNat).drop Header.size =
      (Body.start h data).rest ++ Body.verifier h data := by
    have hdrop := congrArg (List.drop Header.size) hframed.bytes
    rwa [List.append_assoc, List.drop_left' (Header.length_encode ..)] at hdrop
  refine encode_ok_iff.mpr ⟨trivial, ?_⟩
  rw [hraw]
  simp only [header, body, verifier, List.length_append, hauth, Nat.add_sub_cancel, List.take_left,
    List.drop_left]
  exact hframed

namespace Pdu

/-- The lengths in its header make no difference to how a unit is written. -/
theorem encode_withLengths {u : Pdu} {b : List UInt8} (hencode : u.encode = .ok b) :
    (u.withLengths (UInt16.ofNat b.length) (UInt16.ofNat u.verifier.length)).encode = .ok b := by
  obtain ⟨hcount, hb⟩ := encode_ok_iff.mp hencode
  refine encode_ok_iff.mpr ?_
  cases u with
  | other h bs =>
    -- Here the length of the verifier is what tells it from the body, but it is the same again.
    let auth := (Pdu.other h bs).verifier
    have hstart : bs.length - (UInt16.ofNat auth.length).toNat = bs.length - h.authLength.toNat := by
      rw [hb.toNat_lengths.2]
      simp only [verifier, List.length_drop]
      omega
    refine ⟨trivial, ?_⟩
    change Framed (h.withLengths (UInt16.ofNat b.length) (UInt16.ofNat auth.length))
      (bs.take (bs.length - (UInt16.ofNat auth.length).toNat))
      (bs.drop (bs.length - (UInt16.ofNat auth.length).toNat)) b
    rw [hstart]
    exact ⟨hb.label, hb.bytes, hb.length_lt⟩
  | _ => exact ⟨hcount, hb.label, hb.bytes, hb.length_lt⟩

/-- **Encoding what was decoded.** A request or a unit with a raw body is written exactly as it was
read, and a response is but for the ignored byte at offset 23, which becomes zero. Whatever the kind,
if a decoded unit is written at all then it is read back the same, both lengths in its header apart,
and written the same again. -/
theorem encode_of_decode {data : List UInt8} {u : Pdu} (hdecode : decode data = .ok u) :
    let unit := data.take u.header.fragmentLength.toNat
    unit.length = u.header.fragmentLength.toNat ∧
    (∀ r, u = .request r → u.encode = .ok unit) ∧
    (∀ h bs, u = .other h bs → u.encode = .ok unit) ∧
    (∀ r, u = .response r → 23 < unit.length ∧ u.encode = .ok (unit.set 23 0)) ∧
    ∀ b, u.encode = .ok b →
      let again := u.withLengths (UInt16.ofNat b.length) (UInt16.ofNat u.verifier.length)
      decode b = .ok again ∧ again.encode = .ok b := by
  intro unit
  have hread := decodedByKind_of_decode hdecode
  obtain ⟨hparse, hkind⟩ := parse_of_decode hdecode
  have hunit : unit.length = u.header.fragmentLength.toNat :=
    List.length_take_of_le (Header.atFront_of_parse hparse).within
  refine ⟨hunit, ?_, ?_, ?_, fun b hb => ⟨?_, encode_withLengths hb⟩⟩
  · rintro r rfl
    exact Request.encode_decoded hread
  · rintro h bs rfl
    obtain ⟨-, rfl⟩ := hread
    exact encode_other_of_parse hparse
  · rintro r rfl
    obtain ⟨hlong, hencode⟩ := Response.encode_decoded hread
    refine ⟨?_, hencode⟩
    rw [hunit]
    exact hlong
  · obtain ⟨hcount, hframed⟩ := encode_ok_iff.mp hb
    have hagain := decode_of_framed hkind hcount hframed []
    rwa [List.append_nil] at hagain

/-- Big-endian, with an object and a verifier, and four bytes too many. -/
def sampleRequest : List UInt8 :=
  [5, 0, 0, 0x83, 0x00, 0, 0, 0, 0, 45, 0, 2, 0, 0, 0, 7,
   0, 0, 0, 3, 0, 1, 0, 9, 0x11, 0x22, 0x33, 0x44, 0x55, 0x66, 0x77, 0x88,
   1, 2, 3, 4, 5, 6, 7, 8, 0xaa, 0xbb, 0xcc, 10, 11, 5, 0, 0, 0]

theorem encode_of_decode_sampleRequest :
    ∃ r, decode sampleRequest = .ok (.request r) ∧
      (Pdu.request r).encode = .ok (sampleRequest.take 45) := by
  have hdecode : ∃ r, decode sampleRequest = .ok (.request r) ∧
      r.header.fragmentLength.toNat = 45 := ⟨_, rfl, rfl⟩
  obtain ⟨r, hr, hlength⟩ := hdecode
  obtain ⟨-, hrequest, -⟩ := encode_of_decode hr
  have hencode := hrequest r rfl
  rw [Pdu.header, hlength] at hencode
  exact ⟨r, hr, hencode⟩

end Pdu

end RemoteCall
