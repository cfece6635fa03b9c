import RemoteCall.Proofs.Pdu.Reading
import RemoteCall.Pdu.Decoder
import RemoteCall.Pdu.Encoder

/-! The header of a unit and what `assemble` makes of header, body and verifier. The header of an
assembled unit is read back with both lengths filled in, its body is what stands between header and
verifier, and nothing depends on the bytes after the unit. -/

namespace RemoteCall

/-! ## Labels -/

/-- A label that can be read has the byte order that the representation shows. -/
theorem Label.integers_eq_order {r : Representation} {l : Label}
    (h : Label.ofRepresentation r = .ok l) : l.integers = r.order := by
  unfold Label.ofRepresentation at h
  simp only at h
  have horder : ∀ i, ByteOrder.ofCode? (r.formats.toNat / 16) = some i → i = r.order := by
    intro i hi
    unfold ByteOrder.ofCode? at hi
    split at hi
    · rename_i hz
      cases hi
      simp [Representation.order, Representation.isLittle, hz]
    · rename_i ho
      cases hi
      simp [Representation.order, Representation.isLittle, ho]
    · cases hi
  cases hi : ByteOrder.ofCode? (r.formats.toNat / 16) with
  | none => simp [hi] at h
  | some i =>
    simp only [hi] at h
    split at h
    · cases h
    · split at h
      · cases h
      · cases h
        exact horder i hi

namespace Header

/-- The header with the two lengths that were computed for the unit. -/
def withLengths (h : Header) (fragmentLength authLength : UInt16) : Header :=
  { h with fragmentLength, authLength }

/-- The length of the verifier that a header announces, in the given byte order. -/
def announcedAuth (o : ByteOrder) (data : List UInt8) : UInt16 := o.read16 ((data.drop 10).take 2)

/-! ## Fields of a written header -/

section Fields

variable (h : Header) (o : ByteOrder) (f a : UInt16) (rest : List UInt8)

theorem representationOf_encode : representationOf (h.encode o f a ++ rest) = h.representation := by
  simp [representationOf, encode, Representation.bytes]

theorem announced_encode : announced o (h.encode o f a ++ rest) = f := by
  simp [announced, encode, Representation.bytes]

theorem announcedAuth_encode : announcedAuth o (h.encode o f a ++ rest) = a := by
  simp [announcedAuth, encode, Representation.bytes]

theorem callId_encode : o.read32 (((h.encode o f a ++ rest).drop 12).take 4) = h.callId := by
  simp [encode, Representation.bytes, List.drop_append, List.drop_eq_nil_of_le]

end Fields

/-- A written header is read back, if the bytes at hand hold the lengths that it announces. -/
theorem parse_encode {h : Header} {l : Label} {f a : UInt16} (rest : List UInt8)
    (hlabel : Label.ofRepresentation h.representation = .ok l)
    (hbuffer : f.toNat ≤ size + rest.length) (hauth : size + a.toNat ≤ f.toNat) :
    parse (h.encode l.integers f a ++ rest) = .ok (h.withLengths f a) := by
  have hlength : ¬ (h.encode l.integers f a ++ rest).length < size := by
    rw [List.length_append, length_encode]
    omega
  have hrep := representationOf_encode h l.integers f a rest
  have hf := announced_encode h l.integers f a rest
  have ha := announcedAuth_encode h l.integers f a rest
  have hc := callId_encode h l.integers f a rest
  have hkind : PacketKind.ofTag? ((h.encode l.integers f a ++ rest).getD 2 0) = some h.kind := by
    simp [encode]
  unfold announcedAuth at ha
  simp only [parse, if_neg hlength, hrep, hlabel, bind, Except.bind, hf, ha, hc, hkind]
  have h1 : ¬ f.toNat < size := by omega
  have h2 : ¬ f.toNat > (h.encode l.integers f a ++ rest).length := by
    rw [List.length_append, length_encode]
    omega
  have h3 : ¬ size + a.toNat > f.toNat := by omega
  simp only [if_neg h1, if_neg h2, if_neg h3]
  simp [encode, withLengths, pure, Except.pure]

end Header

/-! ## Units -/

/-- The bytes `b` are a unit of header `h`, body `bs` and verifier `auth`, with both lengths filled
in. -/
structure Framed (h : Header) (bs auth b : List UInt8) : Prop where
  label : ∃ l, Label.ofRepresentation h.representation = .ok l
  bytes : b = h.encode h.representation.order (UInt16.ofNat b.length) (UInt16.ofNat auth.length)
    ++ bs ++ auth
  length_lt : b.length < 65536

/-- `assemble` succeeds exactly when it can give the unit of its arguments. -/
theorem assemble_ok_iff {h : Header} {body : ByteOrder → Except Error (List UInt8)}
    {auth b : List UInt8} :
    assemble h body auth = .ok b ↔
      ∃ bs, body h.representation.order = .ok bs ∧ Framed h bs auth b := by
  unfold assemble
  cases hl : Label.ofRepresentation h.representation with
  | error e =>
    constructor
    · intro hb
      cases hb
    · rintro ⟨bs, _, hframed⟩
      obtain ⟨l, hl'⟩ := hframed.label
      rw [hl] at hl'
      cases hl'
  | ok l =>
    have ho := Label.integers_eq_order hl
    simp only [bind, Except.bind, ho]
    cases hbody : body h.representation.order with
    | error e => simp
    | ok bs =>
      simp only [Except.ok.injEq, exists_eq_left']
      constructor
      · intro hb
        split at hb
        · cases hb
        · split at hb
          · cases hb
          · rename_i hauth htotal
            cases hb
            have hlength : (h.encode h.representation.order
                (UInt16.ofNat (Header.size + bs.length + auth.length))
                (UInt16.ofNat auth.length) ++ bs ++ auth).length
                  = Header.size + bs.length + auth.length := by simp; omega
            refine ⟨⟨l, hl⟩, ?_, ?_⟩
            · rw [hlength]
            · rw [hlength]
              omega
      · intro hframed
        have hlength := congrArg List.length hframed.bytes
        simp only [List.length_append, Header.length_encode] at hlength
        have hlt := hframed.length_lt
        rw [if_neg (by omega), if_neg (by omega), ← hlength, ← hframed.bytes]
        rfl

namespace Framed

variable {h : Header} {bs auth b : List UInt8}

theorem length_eq (hb : Framed h bs auth b) : b.length = Header.size + bs.length + auth.length := by
  have hlength := congrArg List.length hb.bytes
  simpa only [List.length_append, Header.length_encode] using hlength

/-- The header that the unit is read back with. -/
def header (h : Header) (auth b : List UInt8) : Header :=
  h.withLengths (UInt16.ofNat b.length) (UInt16.ofNat auth.length)

theorem toNat_lengths (hb : Framed h bs auth b) :
    (UInt16.ofNat b.length).toNat = b.length ∧ (UInt16.ofNat auth.length).toNat = auth.length := by
  have hlength := hb.length_eq
  have hlt := hb.length_lt
  constructor
  · exact UInt16.toNat_ofNat_of_lt' hlt
  · exact UInt16.toNat_ofNat_of_lt' (by rw [UInt16.size]; omega)

theorem parse (hb : Framed h bs auth b) (tail : List UInt8) :
    Header.parse (b ++ tail) = .ok (header h auth b) := by
  obtain ⟨l, hl⟩ := hb.label
  obtain ⟨hf, ha⟩ := hb.toNat_lengths
  have hlength := hb.length_eq
  have ho := Label.integers_eq_order hl
  have hbytes := hb.bytes
  rw [← ho] at hbytes
  have hparse := Header.parse_encode (f := UInt16.ofNat b.length) (a := UInt16.ofNat auth.length)
    (bs ++ auth ++ tail) hl
    (by rw [hf]; simp only [List.length_append]; omega) (by rw [hf, ha]; omega)
  rw [← List.append_assoc, ← List.append_assoc, ← hbytes] at hparse
  exact hparse

theorem announced (hb : Framed h bs auth b) :
    (Header.announced h.representation.order b).toNat = b.length ∧
      (Header.announcedAuth h.representation.order b).toNat = auth.length := by
  have hf := Header.announced_encode h h.representation.order (UInt16.ofNat b.length)
    (UInt16.ofNat auth.length) (bs ++ auth)
  have ha := Header.announcedAuth_encode h h.representation.order (UInt16.ofNat b.length)
    (UInt16.ofNat auth.length) (bs ++ auth)
  rw [← List.append_assoc, ← hb.bytes] at hf ha
  rw [hf, ha]
  exact hb.toNat_lengths

/-- The body is what stands between the header and the verifier. -/
theorem start_eq (hb : Framed h bs auth b) (tail : List UInt8) :
    Body.start (header h auth b) (b ++ tail) = ⟨h.representation.order, Header.size, bs⟩ := by
  obtain ⟨hf, ha⟩ := hb.toNat_lengths
  have hlength := hb.length_eq
  have hsplit : b ++ tail = (h.encode h.representation.order (UInt16.ofNat b.length)
      (UInt16.ofNat auth.length) ++ bs) ++ (auth ++ tail) := by
    rw [← List.append_assoc, ← hb.bytes]
  have htake : (b ++ tail).take (b.length - auth.length)
      = h.encode h.representation.order (UInt16.ofNat b.length) (UInt16.ofNat auth.length)
        ++ bs := by
    rw [hsplit]
    apply List.take_left'
    rw [List.length_append, Header.length_encode]
    omega
  unfold Body.start header Header.withLengths
  simp only [hf, ha, htake]
  rw [List.drop_left' (Header.length_encode ..)]

theorem verifier_eq (hb : Framed h bs auth b) (tail : List UInt8) :
    Body.verifier (header h auth b) (b ++ tail) = auth := by
  obtain ⟨hf, ha⟩ := hb.toNat_lengths
  have hlength := hb.length_eq
  unfold Body.verifier header Header.withLengths
  simp only [hf, ha]
  rw [List.take_left' rfl]
  have hsplit : b.length - auth.length = (h.encode h.representation.order
      (UInt16.ofNat b.length) (UInt16.ofNat auth.length) ++ bs).length := by
    rw [List.length_append, Header.length_encode]
    omega
  rw [hsplit]
  have hdrop := congrArg (List.drop (h.encode h.representation.order
      (UInt16.ofNat b.length) (UInt16.ofNat auth.length) ++ bs).length) hb.bytes
  rw [List.drop_left] at hdrop
  exact hdrop

/-- A reader that exhausts the body runs on the unit. -/
theorem run {α : Type} {p : Body.Parse α} {a : α} (hb : Framed h bs auth b)
    (hp : Body.Exhausts p h.representation.order Header.size bs a) (tail : List UInt8) :
    Body.run p (header h auth b) (b ++ tail) = .ok a := by
  unfold Body.run
  rw [hb.start_eq tail]
  change (p _ >>= fun x => pure x.1) = _
  rw [hp]
  rfl

/-- A unit of one of the kinds that are asked for. -/
theorem expect {kinds : List PacketKind} (hb : Framed h bs auth b) (hkind : h.kind ∈ kinds)
    (tail : List UInt8) : Header.expect kinds (b ++ tail) = .ok (header h auth b) := by
  have hcontains : kinds.contains (header h auth b).kind = true := List.contains_iff_mem.mpr hkind
  unfold Header.expect
  rw [hb.parse tail]
  simp only [bind, Except.bind]
  rw [if_pos hcontains]
  rfl

end Framed

end RemoteCall
