import Mathlib.Data.List.Forall2
import RemoteCall.Proofs.Pdu.RoundTrip
import RemoteCall.Stream.Front

/-! The bytes that are written for a unit, as they travel: a stream cuts them off again as one unit,
whatever follows, and they are read back with the header completed. -/

namespace RemoteCall

/-- There are bytes for a header, a body and a verifier that are not too long. -/
theorem exists_framed {h : Header} {bs auth : List UInt8}
    (hlabel : ∃ l, Label.ofRepresentation h.representation = .ok l)
    (hlength : Header.size + bs.length + auth.length < 65536) :
    ∃ b, Framed h bs auth b ∧ b.length = Header.size + bs.length + auth.length := by
  let total := Header.size + bs.length + auth.length
  let b := h.encode h.representation.order (UInt16.ofNat total) (UInt16.ofNat auth.length) ++ bs
    ++ auth
  have hb : b.length = total := by
    simp only [b, total, List.length_append, Header.length_encode]
  refine ⟨b, ⟨hlabel, ?_, ?_⟩, hb⟩
  · rw [hb]
  · rw [hb]
    exact hlength

/-- A framed unit is cut off the front of a stream. -/
theorem Framed.front {h : Header} {bs auth b : List UInt8} (hb : Framed h bs auth b)
    (rest : List UInt8) : front (b ++ rest) = .unit b rest := by
  obtain ⟨l, hl⟩ := hb.label
  have ho := Label.integers_eq_order hl
  have hlength := hb.length_eq
  have hcut : b ++ rest = h.encode h.representation.order (UInt16.ofNat b.length)
      (UInt16.ofNat auth.length) ++ (bs ++ (auth ++ rest)) := by
    rw [← List.append_assoc, ← List.append_assoc, ← hb.bytes]
  have hannounced : (Header.announced l.integers (b ++ rest)).toNat = b.length := by
    rw [ho, hcut, Header.announced_encode]
    exact hb.toNat_lengths.1
  have hshort : ¬ (b ++ rest).length < Header.size := by
    rw [List.length_append]
    omega
  have hpeek : Header.peekLength (b ++ rest) = .ok b.length := by
    have hrep : Header.representationOf (b ++ rest) = h.representation := by
      rw [hcut, Header.representationOf_encode]
    simp only [Header.peekLength, if_neg hshort, hrep, hl, ok_bind, hannounced]
    rfl
  unfold RemoteCall.front
  rw [if_neg hshort, hpeek]
  dsimp only
  rw [if_neg (by omega), splitExact?_append rfl]

namespace Pdu

/-- The bytes that are written for a unit whose header is one of its kind. -/
structure Written (u : Pdu) (b : List UInt8) : Prop where
  kind : u.header.kind ∈ u.kinds
  countable : u.Countable
  framed : Framed u.header (u.body u.header.representation.order) u.verifier b

/-- The units are the same but for the lengths in their headers. -/
def SameContent (u u' : Pdu) : Prop := ∃ f a, u' = u.withLengths f a

/-- What does not depend on these lengths goes on to hold. -/
theorem forall_of_sameContent {P : Pdu → Prop} {us us' : List Pdu}
    (hP : ∀ {u u' : Pdu}, u.SameContent u' → P u → P u')
    (h : List.Forall₂ SameContent us us') (hus : ∀ u ∈ us, P u) : ∀ u ∈ us', P u := by
  induction h with
  | nil => exact hus
  | cons hu _ ih =>
    obtain ⟨hhead, htail⟩ := List.forall_mem_cons.mp hus
    exact List.forall_mem_cons.mpr ⟨hP hu hhead, ih htail⟩

namespace Written

variable {u : Pdu} {b : List UInt8}

theorem encode (hb : u.Written b) : u.encode = .ok b :=
  encode_ok_iff.mpr ⟨hb.countable, hb.framed⟩

theorem decode (hb : u.Written b) :
    Pdu.decode b = .ok (u.withHeader (Framed.header u.header u.verifier b)) := by
  have hdecode := decode_of_framed hb.kind hb.countable hb.framed []
  rwa [List.append_nil] at hdecode

/-- What is read is what was written, with the lengths filled in. -/
theorem decode_same (hb : u.Written b) : ∃ u', Pdu.decode b = .ok u' ∧ u.SameContent u' :=
  ⟨_, hb.decode, UInt16.ofNat b.length, UInt16.ofNat u.verifier.length, rfl⟩

theorem front (hb : u.Written b) (rest : List UInt8) : front (b ++ rest) = .unit b rest :=
  hb.framed.front rest

theorem length_pos (hb : u.Written b) : 0 < b.length := by
  have hlength := hb.framed.length_eq
  have hsize : 0 < Header.size := by decide
  omega

theorem length_lt (hb : u.Written b) : b.length < 65536 := hb.framed.length_lt

theorem unique {b' : List UInt8} (hb : u.Written b) (hb' : u.Written b') : b = b' :=
  Except.ok.inj (hb.encode.symm.trans hb'.encode)

end Written

/-- A unit is written if it is countable, of a representation that can be read, and not too long. -/
theorem exists_written {u : Pdu} (hkind : u.header.kind ∈ u.kinds) (hcount : u.Countable)
    (hstandard : u.header.representation = .standard)
    (hlength : Header.size + (u.body Representation.standard.order).length + u.verifier.length
      < 65536) : ∃ b, u.Written b := by
  have hlabel : ∃ l, Label.ofRepresentation u.header.representation = .ok l := by
    rw [hstandard]
    exact ⟨_, rfl⟩
  rw [← hstandard] at hlength
  obtain ⟨b, hb, -⟩ := exists_framed hlabel hlength
  exact ⟨b, hkind, hcount, hb⟩

/-- Without a verifier there are no more bytes than those of header and body. -/
theorem exists_written_of_length {u : Pdu} {n : Nat} (hkind : u.header.kind ∈ u.kinds)
    (hcount : u.Countable) (hstandard : u.header.representation = .standard)
    (hauth : u.verifier = []) (hbody : (u.body Representation.standard.order).length = n)
    (hlength : Header.size + n < 65536) : ∃ b, u.Written b ∧ b.length = Header.size + n := by
  have hunit : Header.size + (u.body Representation.standard.order).length + u.verifier.length =
      Header.size + n := by
    rw [hbody, hauth, List.length_nil, Nat.add_zero]
  obtain ⟨b, hb⟩ := exists_written hkind hcount hstandard (hunit ▸ hlength)
  have hb' := hb.framed.length_eq
  rw [hstandard, hunit] at hb'
  exact ⟨b, hb, hb'⟩

/-! ## Several units -/

theorem exists_written_all {us : List Pdu} (h : ∀ u ∈ us, ∃ b, u.Written b) :
    ∃ bs, List.Forall₂ Written us bs := by
  induction us with
  | nil => exact ⟨[], .nil⟩
  | cons u us ih =>
    obtain ⟨b, hb⟩ := h u List.mem_cons_self
    obtain ⟨bs, hbs⟩ := ih fun u' hu' => h u' (List.mem_cons_of_mem u hu')
    exact ⟨b :: bs, .cons hb hbs⟩

section Several

variable {us : List Pdu} {bs : List (List UInt8)} (h : List.Forall₂ Written us bs)
include h

theorem mapM_encode : us.mapM encode = .ok bs := by
  induction h with
  | nil => rfl
  | cons hb _ ih =>
    rw [List.mapM_cons, hb.encode, ok_bind, ih]
    rfl

theorem mapM_decode :
    ∃ received, bs.mapM decode = .ok received ∧ List.Forall₂ SameContent us received := by
  induction h with
  | nil => exact ⟨[], rfl, .nil⟩
  | cons hb _ ih =>
    obtain ⟨u', hdecode, hu⟩ := hb.decode_same
    obtain ⟨received, hreceived, hsame⟩ := ih
    refine ⟨u' :: received, ?_, .cons hu hsame⟩
    rw [List.mapM_cons, hdecode, ok_bind, hreceived]
    rfl

end Several

end Pdu

/-! ## Lengths of bodies -/

theorem Request.length_body (o : ByteOrder) (r : Request) :
    (r.body o).length = fixedLength r.object + r.stub.length := by
  have hobject : (objectBytes o r.object).length = if r.object.isSome then 16 else 0 := by
    cases r.object with
    | none => rfl
    | some u => exact Uuid.length_encode o u
  simp only [body, fixedLength, List.length_append, ByteOrder.length_word16,
    ByteOrder.length_word32, hobject]

theorem Response.length_body (o : ByteOrder) (r : Response) :
    (r.body o).length = fixedLength + r.stub.length := by
  simp [body, fixedLength]
  omega

theorem Fault.length_body (o : ByteOrder) (f : Fault) : (f.body o).length = 16 := by
  simp [body]

theorem ContextAnswer.length_encode (o : ByteOrder) (a : ContextAnswer) :
    (a.encode o).length = 24 := by
  simp [encode, SyntaxId.encode]

theorem length_flatMap_of_length_eq {α : Type} {f : α → List UInt8} {n : Nat}
    (hf : ∀ a, (f a).length = n) (as : List α) : (as.flatMap f).length = n * as.length := by
  simp only [List.length_flatMap, hf, List.map_const', List.sum_replicate_nat, Nat.mul_comm]

theorem Acknowledgement.length_fixedBytes (o : ByteOrder) (a : Acknowledgement) :
    (a.fixedBytes o).length = 10 + (addressBytes a.address).length := by
  simp [fixedBytes]
  omega

theorem Acknowledgement.length_body_le (o : ByteOrder) (a : Acknowledgement) :
    (a.body o).length ≤ 17 + (addressBytes a.address).length + 24 * a.answers.length := by
  simp only [body, List.length_append, List.length_replicate, List.length_cons, List.length_nil,
    length_flatMap_of_length_eq (ContextAnswer.length_encode o), length_fixedBytes]
  omega

end RemoteCall
