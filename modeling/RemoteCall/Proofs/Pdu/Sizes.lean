import Mathlib.Algebra.GroupWithZero.Nat
import RemoteCall.Proofs.Pdu.Errors
import RemoteCall.Proofs.Pdu.Written

/-! Which units can be written (`Pdu.encode_iff_fits`). The size of a unit shows in its lists, its
address, its payload and its verifier. If the size and the counts of the lists fit their fields,
the unit is written with exactly so many bytes, and each of its fields that counts something tells
the truth. Otherwise nothing is written. -/

namespace RemoteCall

/-! ## Representations -/

/-- Each of the three formats is one that has a name. -/
structure Representation.Known (r : Representation) : Prop where
  integers : r.formats.toNat / 16 < 2
  characters : r.formats.toNat % 16 < 2
  floats : r.floats.toNat < 4

section Formats

theorem ByteOrder.isSome_ofCode? : ∀ {n : Nat}, (ByteOrder.ofCode? n).isSome ↔ n < 2
  | 0 | 1 => by decide
  | n + 2 => by simp [ByteOrder.ofCode?]

theorem CharacterFormat.isSome_ofCode? : ∀ {n : Nat}, (CharacterFormat.ofCode? n).isSome ↔ n < 2
  | 0 | 1 => by decide
  | n + 2 => by simp [CharacterFormat.ofCode?]

theorem FloatFormat.isSome_ofCode? : ∀ {n : Nat}, (FloatFormat.ofCode? n).isSome ↔ n < 4
  | 0 | 1 | 2 | 3 => by decide
  | n + 4 => by simp [FloatFormat.ofCode?]

end Formats

theorem Label.exists_ofRepresentation_iff {r : Representation} :
    (∃ l, ofRepresentation r = .ok l) ↔ r.Known := by
  have hknown : r.Known ↔ (ByteOrder.ofCode? (r.formats.toNat / 16)).isSome ∧
      (CharacterFormat.ofCode? (r.formats.toNat % 16)).isSome ∧
      (FloatFormat.ofCode? r.floats.toNat).isSome := by
    rw [ByteOrder.isSome_ofCode?, CharacterFormat.isSome_ofCode?, FloatFormat.isSome_ofCode?]
    exact ⟨fun h => ⟨h.integers, h.characters, h.floats⟩, fun ⟨hi, hc, hf⟩ => ⟨hi, hc, hf⟩⟩
  rw [hknown]
  unfold ofRepresentation
  dsimp only
  cases ByteOrder.ofCode? (r.formats.toNat / 16) <;>
    cases CharacterFormat.ofCode? (r.formats.toNat % 16) <;>
    cases FloatFormat.ofCode? r.floats.toNat <;> simp

/-! ## Sizes -/

/-- A number that tells how many bytes or entries something has, as it should stand in a unit. -/
structure CountField where
  position : Nat
  width : Nat
  value : Nat

namespace CountField

/-- The bytes of the unit have the field, and it tells the truth. -/
structure Holds (f : CountField) (o : ByteOrder) (b : List UInt8) : Prop where
  inside : f.position + f.width ≤ b.length
  value : o.decode ((b.drop f.position).take f.width) = f.value

variable {f : CountField} {o : ByteOrder} {b : List UInt8}

/-- A field holds where it is written, if its number is not too great for it. -/
theorem holds_of_encode (front back : List UInt8)
    (hb : b = front ++ o.encode f.width f.value ++ back) (hposition : front.length = f.position)
    (hvalue : f.value < capacity f.width) : f.Holds o b := by
  constructor
  · rw [hb]
    simp only [List.length_append, ByteOrder.length_encode, hposition]
    omega
  · rw [hb, List.append_assoc, ← hposition, List.drop_left,
      List.take_left' (ByteOrder.length_encode ..), ByteOrder.decode_encode o hvalue]

end CountField

/-- A count of one byte is the same in both orders. -/
theorem ByteOrder.encode_one (o : ByteOrder) (n : Nat) : o.encode 1 n = [UInt8.ofNat n] := by
  cases o <;> rfl

theorem ByteOrder.word16_ofNat (o : ByteOrder) {n : Nat} (hn : n < 65536) :
    o.word16 (UInt16.ofNat n) = o.encode 2 n := by
  rw [word16, UInt16.toNat_ofNat_of_lt' hn]

namespace Context

def size (c : Context) : Nat := 24 + 20 * c.transferSyntaxes.length

/-- The counts of transfer syntaxes in contexts that start at the position. -/
def counts : Nat → List Context → List CountField
  | _, [] => []
  | start, c :: cs => ⟨start + 2, 1, c.transferSyntaxes.length⟩ :: counts (start + c.size) cs

variable {cs : List Context}

theorem length_bytes (o : ByteOrder) (c : Context) : (c.bytes o).length = c.size := by
  simp only [bytes, size, List.length_append, ByteOrder.length_word16, SyntaxId.length_encode,
    length_flatMap_of_length_eq (SyntaxId.length_encode o), List.length_cons, List.length_nil]

theorem length_flatMap_bytes (o : ByteOrder) (cs : List Context) :
    (cs.flatMap (·.bytes o)).length = (cs.map size).sum := by
  rw [List.length_flatMap]
  exact congrArg List.sum (List.map_congr_left fun c _ => length_bytes o c)

theorem forall_counts_iff (start : Nat) :
    (∀ f ∈ counts start cs, f.value ≤ 255) ↔ ∀ c ∈ cs, c.transferSyntaxes.length < 256 := by
  induction cs generalizing start with
  | nil => exact iff_of_true nofun nofun
  | cons c cs ih =>
    rw [counts, List.forall_mem_cons, List.forall_mem_cons, ih, Nat.lt_succ_iff]

theorem holds_counts {o : ByteOrder} {b : List UInt8} (front back : List UInt8)
    (hcs : ∀ c ∈ cs, c.transferSyntaxes.length < 256)
    (hb : b = front ++ cs.flatMap (·.bytes o) ++ back) :
    ∀ f ∈ counts front.length cs, f.Holds o b := by
  induction cs generalizing front with
  | nil => nofun
  | cons c cs ih =>
    obtain ⟨hc, hcs⟩ := List.forall_mem_cons.mp hcs
    rw [counts, List.forall_mem_cons]
    constructor
    · refine CountField.holds_of_encode (front ++ o.word16 c.id)
        ([0] ++ c.abstractSyntax.encode o ++ c.transferSyntaxes.flatMap (·.encode o) ++
          cs.flatMap (·.bytes o) ++ back) ?_ ?_ hc
      · rw [hb, ByteOrder.encode_one]
        simp [Context.bytes]
      · simp
    · have hrest := ih (front ++ c.bytes o) hcs (by simp [hb])
      rwa [List.length_append, length_bytes] at hrest

end Context

theorem Proposal.length_body (o : ByteOrder) (p : Proposal) :
    (p.body o).length = 12 + (p.contexts.map Context.size).sum := by
  simp only [body, List.length_append, ByteOrder.length_word16, ByteOrder.length_word32,
    Context.length_flatMap_bytes, List.length_cons, List.length_nil]

namespace Acknowledgement

variable (o : ByteOrder) (a : Acknowledgement)

/-- Where the answers are counted: after the address, in the next word of the unit. -/
def answersStart : Nat := (26 + (addressBytes a.address).length + 3) / 4 * 4

/-- The bytes in front of the answers and their count. -/
def frontBytes : List UInt8 :=
  a.fixedBytes o ++ List.replicate ((4 - (Header.size + (a.fixedBytes o).length) % 4) % 4) 0

theorem length_frontBytes : Header.size + (a.frontBytes o).length = a.answersStart := by
  simp only [frontBytes, answersStart, Header.size, List.length_append, List.length_replicate,
    length_fixedBytes]
  omega

theorem length_body :
    Header.size + (a.body o).length = a.answersStart + 4 + 24 * a.answers.length := by
  rw [← length_frontBytes o a]
  simp only [body, frontBytes, List.length_append, List.length_cons, List.length_nil,
    length_flatMap_of_length_eq (ContextAnswer.length_encode o)]
  omega

end Acknowledgement

theorem Refusal.length_body (o : ByteOrder) (r : Refusal) :
    (r.body o).length = 3 + 2 * r.versions.length := by
  have hversion : ∀ v : UInt8 × UInt8, [v.1, v.2].length = 2 := fun _ => rfl
  simp only [body, List.length_append, ByteOrder.length_word16, List.length_cons, List.length_nil,
    length_flatMap_of_length_eq hversion]

namespace Pdu

/-- The number of bytes of a unit: header, fixed fields, lists, address and padding, payload and
verifier. -/
def size : Pdu → Nat
  | bind p | alterContext p => 28 + (p.contexts.map Context.size).sum + p.auth.length
  | bindAck a | alterContextResponse a => a.answersStart + 4 + 24 * a.answers.length + a.auth.length
  | bindNak r => 19 + 2 * r.versions.length
  | request r => 24 + (if r.object.isSome then 16 else 0) + r.stub.length + r.auth.length
  | response r => 24 + r.stub.length + r.auth.length
  | fault f => 32 + f.auth.length
  | other _ bs => 16 + bs.length

/-- The counts of all lists. -/
def counts : Pdu → List CountField
  | bind p | alterContext p => ⟨24, 1, p.contexts.length⟩ :: Context.counts 28 p.contexts
  | bindAck a | alterContextResponse a => [⟨a.answersStart, 1, a.answers.length⟩]
  | bindNak r => [⟨18, 1, r.versions.length⟩]
  | request _ | response _ | fault _ | other .. => []

def addressLength : Pdu → List CountField
  | bindAck a | alterContextResponse a => [⟨24, 2, (Acknowledgement.addressBytes a.address).length⟩]
  | bind _ | alterContext _ | bindNak _ | request _ | response _ | fault _ | other .. => []

/-- The lengths of the unit, of its verifier and of an address. -/
def lengths (u : Pdu) : List CountField :=
  [⟨8, 2, u.size⟩, ⟨10, 2, u.verifier.length⟩] ++ u.addressLength

/-- The unit can be written. -/
structure Fits (u : Pdu) : Prop where
  representation : u.header.representation.Known
  counts : ∀ f ∈ u.counts, f.value ≤ 255
  object : ∀ r, u = request r → r.object.isSome = r.header.flags.hasObject
  size : u.size ≤ 65535

variable {u : Pdu} {b : List UInt8}

theorem size_eq (o : ByteOrder) (u : Pdu) :
    Header.size + (u.body o).length + u.verifier.length = u.size := by
  cases u with
  | bind p | alterContext p =>
    simp only [body, verifier, size, Proposal.length_body, Header.size]
    omega
  | bindAck a | alterContextResponse a => simp only [body, verifier, size, a.length_body]
  | bindNak r =>
    simp only [body, verifier, size, Refusal.length_body, Header.size, List.length_nil]
    omega
  | request r =>
    simp only [body, verifier, size, Request.length_body, Request.fixedLength, Header.size]
    omega
  | response r =>
    simp only [body, verifier, size, Response.length_body, Response.fixedLength, Header.size]
    omega
  | fault f => simp only [body, verifier, size, Fault.length_body, Header.size]
  | other h bs =>
    simp only [body, verifier, size, Header.size, List.length_take, List.length_drop]
    omega

theorem length_eq_size (hb : Framed u.header (u.body u.header.representation.order) u.verifier b) :
    b.length = u.size :=
  hb.length_eq.trans (size_eq _ u)

/-- The address of a unit of this size has a length that fits its field. -/
theorem countable_iff (hsize : u.size ≤ 65535) :
    u.Countable ↔ (∀ f ∈ u.counts, f.value ≤ 255) ∧
      ∀ r, u = request r → r.object.isSome = r.header.flags.hasObject := by
  cases u with
  | bind p | alterContext p =>
    simp only [Countable, counts, List.forall_mem_cons, Context.forall_counts_iff, Nat.lt_succ_iff,
      reduceCtorEq, false_implies, implies_true, and_true]
  | bindAck a | alterContextResponse a =>
    simp only [size, Acknowledgement.answersStart] at hsize
    simp only [Countable, counts, List.forall_mem_singleton, reduceCtorEq, false_implies,
      implies_true, and_true]
    omega
  | bindNak r =>
    simp only [Countable, counts, List.forall_mem_singleton, Nat.lt_succ_iff, reduceCtorEq,
      false_implies, implies_true, and_true]
  | request r => simp [Countable, counts]
  | response r | fault f | other h bs => exact iff_of_true trivial ⟨nofun, nofun⟩

theorem exists_encode_iff : (∃ b, u.encode = .ok b) ↔ u.Fits := by
  constructor
  · rintro ⟨b, hb⟩
    obtain ⟨hcount, hframed⟩ := encode_ok_iff.mp hb
    have hsize : u.size ≤ 65535 := by
      rw [← length_eq_size hframed]
      exact Nat.le_of_lt_succ hframed.length_lt
    obtain ⟨hcounts, hobject⟩ := (countable_iff hsize).mp hcount
    exact ⟨Label.exists_ofRepresentation_iff.mp hframed.label, hcounts, hobject, hsize⟩
  · intro h
    have hlength := size_eq u.header.representation.order u
    obtain ⟨b, hframed, -⟩ := exists_framed (Label.exists_ofRepresentation_iff.mpr h.representation)
      (hlength ▸ Nat.lt_succ_of_le h.size)
    exact ⟨b, encode_ok_iff.mpr ⟨(countable_iff h.size).mpr ⟨h.counts, h.object⟩, hframed⟩⟩

end Pdu

/-! ## What the fields tell -/

namespace Framed

variable {h : Header} {o : ByteOrder} {bs auth b : List UInt8} {f : CountField}

theorem bytes_of_order (hb : Framed h bs auth b) (ho : h.representation.order = o) :
    b = h.encode o (UInt16.ofNat b.length) (UInt16.ofNat auth.length) ++ bs ++ auth :=
  ho ▸ hb.bytes

/-- A field of the body. -/
theorem holds (hb : Framed h bs auth b) (ho : h.representation.order = o)
    (front back : List UInt8) (hbs : bs = front ++ o.encode f.width f.value ++ back)
    (hposition : Header.size + front.length = f.position) (hvalue : f.value < capacity f.width) :
    f.Holds o b := by
  refine CountField.holds_of_encode
    (h.encode o (UInt16.ofNat b.length) (UInt16.ofNat auth.length) ++ front) (back ++ auth) ?_ ?_
    hvalue
  · have hbytes := hb.bytes_of_order ho
    rw [hbs] at hbytes
    simpa only [List.append_assoc] using hbytes
  · rw [List.length_append, Header.length_encode, hposition]

/-- The two lengths of the header. -/
theorem holds_lengths (hb : Framed h bs auth b) (ho : h.representation.order = o) :
    (CountField.mk 8 2 b.length).Holds o b ∧ (CountField.mk 10 2 auth.length).Holds o b := by
  have hlt := hb.length_lt
  have hlength := hb.length_eq
  have hauth : auth.length < 65536 := by omega
  have hbytes := hb.bytes_of_order ho
  let tags := [h.major, h.minor, h.kind.tag, h.flags.bits] ++ h.representation.bytes
  rw [Header.encode, ByteOrder.word16_ofNat _ hlt, ByteOrder.word16_ofNat _ hauth] at hbytes
  constructor
  · refine CountField.holds_of_encode tags
      (o.encode 2 auth.length ++ o.word32 h.callId ++ bs ++ auth) ?_ rfl hlt
    simpa only [tags, List.append_assoc] using hbytes
  · refine CountField.holds_of_encode (tags ++ o.encode 2 b.length)
      (o.word32 h.callId ++ bs ++ auth) ?_ ?_ hauth
    · simpa only [tags, List.append_assoc] using hbytes
    · simp [tags, Representation.bytes]

end Framed

section Kinds

variable {h : Header} {o : ByteOrder} {auth b : List UInt8}

theorem Proposal.holds_counts {p : Proposal} (hb : Framed h (p.body o) auth b)
    (ho : h.representation.order = o) (hp : p.contexts.length < 256)
    (hcs : ∀ c ∈ p.contexts, c.transferSyntaxes.length < 256) :
    ∀ f ∈ ⟨24, 1, p.contexts.length⟩ :: Context.counts 28 p.contexts, f.Holds o b := by
  let fixed := o.word16 p.maxTransmit ++ o.word16 p.maxReceive ++ o.word32 p.group
  have hfixed : fixed.length = 8 := by simp [fixed]
  rw [List.forall_mem_cons]
  constructor
  · refine hb.holds ho fixed ([0, 0, 0] ++ p.contexts.flatMap (·.bytes o)) ?_ ?_ hp
    · rw [ByteOrder.encode_one]
      simp [body, fixed]
    · rw [hfixed]
      rfl
  · let front := h.encode o (UInt16.ofNat b.length) (UInt16.ofNat auth.length) ++ fixed ++
      [UInt8.ofNat p.contexts.length, 0, 0, 0]
    have hfront : front.length = 28 := by simp [front, hfixed, Header.size]
    rw [← hfront]
    refine Context.holds_counts front auth hcs ?_
    simpa only [front, fixed, body, List.append_assoc] using hb.bytes_of_order ho

theorem Acknowledgement.holds_answers {a : Acknowledgement} (hb : Framed h (a.body o) auth b)
    (ho : h.representation.order = o) (ha : a.answers.length < 256) :
    (CountField.mk a.answersStart 1 a.answers.length).Holds o b := by
  refine hb.holds ho (a.frontBytes o) ([0, 0, 0] ++ a.answers.flatMap (·.encode o))
    ?_ (length_frontBytes o a) ha
  rw [ByteOrder.encode_one]
  simp [body, frontBytes]

theorem Acknowledgement.holds_address {a : Acknowledgement} (hb : Framed h (a.body o) auth b)
    (ho : h.representation.order = o) (haddress : (addressBytes a.address).length < 65536) :
    (CountField.mk 24 2 (addressBytes a.address).length).Holds o b := by
  refine hb.holds ho (o.word16 a.maxTransmit ++ o.word16 a.maxReceive ++ o.word32 a.group)
    (addressBytes a.address ++
      List.replicate ((4 - (Header.size + (a.fixedBytes o).length) % 4) % 4) 0 ++
      [UInt8.ofNat a.answers.length, 0, 0, 0] ++ a.answers.flatMap (·.encode o)) ?_ ?_ haddress
  · simp only [body, fixedBytes, ByteOrder.word16_ofNat _ haddress, List.append_assoc]
  · simp [Header.size]

theorem Refusal.holds_versions {r : Refusal} (hb : Framed h (r.body o) auth b)
    (ho : h.representation.order = o) (hr : r.versions.length < 256) :
    (CountField.mk 18 1 r.versions.length).Holds o b := by
  refine hb.holds ho (o.word16 r.reason) (r.versions.flatMap fun v => [v.1, v.2]) ?_ ?_ hr
  · rw [ByteOrder.encode_one]
    rfl
  · rw [ByteOrder.length_word16]
    rfl

end Kinds

namespace Pdu

variable {u : Pdu} {b : List UInt8}

theorem holds_counts (hcount : u.Countable)
    (hb : Framed u.header (u.body u.header.representation.order) u.verifier b) :
    ∀ f ∈ u.counts, f.Holds u.header.representation.order b := by
  cases u with
  | bind p | alterContext p => exact Proposal.holds_counts hb rfl hcount.1 hcount.2
  | bindAck a | alterContextResponse a =>
    exact List.forall_mem_singleton.mpr (Acknowledgement.holds_answers hb rfl hcount.1)
  | bindNak r => exact List.forall_mem_singleton.mpr (Refusal.holds_versions hb rfl hcount)
  | request r | response r | fault f | other h bs => nofun

theorem holds_lengths (hcount : u.Countable)
    (hb : Framed u.header (u.body u.header.representation.order) u.verifier b) :
    ∀ f ∈ u.lengths, f.Holds u.header.representation.order b := by
  obtain ⟨hlength, hauth⟩ := hb.holds_lengths rfl
  rw [length_eq_size hb] at hlength
  refine List.forall_mem_append.mpr ⟨by simp [hlength, hauth], ?_⟩
  cases u with
  | bindAck a | alterContextResponse a =>
    exact List.forall_mem_singleton.mpr (Acknowledgement.holds_address hb rfl hcount.2)
  | bind p | alterContext p | bindNak r | request r | response r | fault f | other h bs => nofun

/-- **A unit is written whole or not at all.** It is written if and only if its representation is
one that has names, each of its lists has at most 255 entries, a request has an object exactly when
its flag says so, and the unit has at most 65535 bytes. It then has its size, and each count and
each length in it is the true one. Otherwise there is an error, of the value or of the
representation. -/
theorem encode_iff_fits (u : Pdu) :
    ((∃ b, u.encode = .ok b) ↔ u.Fits) ∧
    (∀ b, u.encode = .ok b →
      b.length = u.size ∧ ∀ f ∈ u.counts ++ u.lengths, f.Holds u.header.representation.order b) ∧
    (¬ u.Fits → ∃ e, u.encode = .error e ∧ e.IsUnwritable) := by
  refine ⟨exists_encode_iff, fun b hb => ?_, fun hfits => ?_⟩
  · obtain ⟨hcount, hframed⟩ := encode_ok_iff.mp hb
    exact ⟨length_eq_size hframed,
      List.forall_mem_append.mpr ⟨holds_counts hcount hframed, holds_lengths hcount hframed⟩⟩
  · cases hencode : u.encode with
    | ok b => exact absurd (exists_encode_iff.mp ⟨b, hencode⟩) hfits
    | error e => exact ⟨e, rfl, u.encode_failsOnly e hencode⟩

end Pdu

end RemoteCall
