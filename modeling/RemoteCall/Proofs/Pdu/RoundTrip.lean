import RemoteCall.Proofs.Pdu.Encoding
import RemoteCall.Pdu.Decoder

/-! Decoding undoes encoding, for units of every kind, in either byte order and whatever follows the
unit. For each kind one lemma says that its reader exhausts its body; `Pdu.decode_append_of_encode`
puts header, body and verifier together. -/

namespace RemoteCall

open Body

/-! ## Addresses -/

@[simp] theorem Utf8.decode?_encode (s : String) : Utf8.decode? (Utf8.encode s) = some s := by
  change String.fromUTF8? s.toByteArray = some s
  unfold String.fromUTF8?
  rw [dif_pos s.isValidUTF8]
  rfl

theorem Acknowledgement.addressOf?_addressBytes (address : String) :
    addressOf? (addressBytes address) = some address := by
  unfold addressOf? addressBytes
  split
  · rename_i hempty
    have hnil : Utf8.encode address = [] := List.isEmpty_iff.mp hempty
    have hdecode := Utf8.decode?_encode address
    rw [hnil] at hdecode
    simpa using hdecode
  · simp

/-! ## Bodies are exhausted -/

section Bodies

variable {o : ByteOrder} {n : Nat}

theorem Context.reads_parse {c : Context} (hc : c.transferSyntaxes.length < 256) :
    Reads Context.parse o n (c.bytes o) c := by
  have hcount : (UInt8.ofNat c.transferSyntaxes.length).toNat = c.transferSyntaxes.length :=
    UInt8.toNat_ofNat_of_lt' hc
  have hbytes : c.bytes o = o.word16 c.id ++ ([UInt8.ofNat c.transferSyntaxes.length] ++ ([0] ++
      (c.abstractSyntax.encode o ++ c.transferSyntaxes.flatMap (·.encode o)))) := by
    simp [Context.bytes]
  rw [hbytes]
  refine (reads_u16 c.id).bind ?_
  refine (reads_u8 _).bind ?_
  refine (reads_skip 1 rfl).bind ?_
  refine (reads_syntaxId c.abstractSyntax).bind ?_
  rw [hcount]
  exact (reads_times fun s _ _ => reads_syntaxId s).bind_pure

theorem Proposal.exhausts_parse {p : Proposal} (hp : p.contexts.length < 256)
    (hcs : ∀ c ∈ p.contexts, c.transferSyntaxes.length < 256) (h : Header) (auth : List UInt8) :
    Exhausts (Proposal.parse h auth) o n (p.body o) { p with header := h, auth } := by
  have hcount : (UInt8.ofNat p.contexts.length).toNat = p.contexts.length :=
    UInt8.toNat_ofNat_of_lt' hp
  have hbytes : p.body o = o.word16 p.maxTransmit ++ (o.word16 p.maxReceive ++ (o.word32 p.group ++
      ([UInt8.ofNat p.contexts.length] ++ ([0, 0, 0] ++ p.contexts.flatMap (·.bytes o))))) := by
    simp [Proposal.body]
  rw [hbytes]
  apply Reads.exhausts
  refine (reads_u16 p.maxTransmit).bind ?_
  refine (reads_u16 p.maxReceive).bind ?_
  refine (reads_u32 p.group).bind ?_
  refine (reads_u8 _).bind ?_
  refine (reads_skip 3 rfl).bind ?_
  rw [hcount]
  exact (reads_times fun c hc _ => Context.reads_parse (hcs c hc)).bind_pure

theorem ContextAnswer.reads_parse (a : ContextAnswer) :
    Reads ContextAnswer.parse o n (a.encode o) a := by
  have hbytes : a.encode o
      = o.word16 a.result ++ (o.word16 a.reason ++ a.transferSyntax.encode o) := by
    simp [ContextAnswer.encode]
  rw [hbytes]
  refine (reads_u16 a.result).bind ?_
  refine (reads_u16 a.reason).bind ?_
  exact (reads_syntaxId a.transferSyntax).bind_pure

theorem Acknowledgement.exhausts_parse {a : Acknowledgement} (ha : a.answers.length < 256)
    (haddress : (addressBytes a.address).length < 65536) (h : Header) (auth : List UInt8) :
    Exhausts (Acknowledgement.parse h auth) o Header.size (a.body o)
      { a with header := h, auth } := by
  have hcount : (UInt8.ofNat a.answers.length).toNat = a.answers.length :=
    UInt8.toNat_ofNat_of_lt' ha
  have hlength : (UInt16.ofNat (addressBytes a.address).length).toNat
      = (addressBytes a.address).length := UInt16.toNat_ofNat_of_lt' haddress
  obtain ⟨zeros, hzeros⟩ : ∃ zeros : List UInt8, zeros = List.replicate
    ((4 - (Header.size + (a.fixedBytes o).length) % 4) % 4) 0 := ⟨_, rfl⟩
  have hbytes : a.body o = o.word16 a.maxTransmit ++ (o.word16 a.maxReceive ++ (o.word32 a.group ++
      (o.word16 (UInt16.ofNat (addressBytes a.address).length) ++ (addressBytes a.address ++
        (zeros ++ ([UInt8.ofNat a.answers.length] ++ ([0, 0, 0] ++
          a.answers.flatMap (·.encode o)))))))) := by
    simp [Acknowledgement.body, fixedBytes, hzeros]
  rw [hbytes]
  apply Reads.exhausts
  refine (reads_u16 a.maxTransmit).bind ?_
  refine (reads_u16 a.maxReceive).bind ?_
  refine (reads_u32 a.group).bind ?_
  refine Reads.peek_bind (fun _ => rfl) ?_
  refine (reads_u16 _).bind ?_
  rw [hlength]
  refine (reads_take rfl).bind ?_
  rw [addressOf?_addressBytes]
  refine (reads_align ?_).bind ?_
  · rw [hzeros, List.length_replicate]
    simp only [fixedBytes, List.length_append, ByteOrder.length_word16, ByteOrder.length_word32]
    simp only [Nat.add_assoc]
  refine (reads_u8 _).bind ?_
  refine (reads_skip 3 rfl).bind ?_
  rw [hcount]
  exact (reads_times fun b _ _ => ContextAnswer.reads_parse b).bind_pure

theorem Refusal.exhausts_parse {r : Refusal} (hr : r.versions.length < 256) (h : Header) :
    Exhausts (Refusal.parse h) o n (r.body o) { r with header := h } := by
  have hcount : (UInt8.ofNat r.versions.length).toNat = r.versions.length :=
    UInt8.toNat_ofNat_of_lt' hr
  have hbytes : r.body o = o.word16 r.reason ++ ([UInt8.ofNat r.versions.length] ++
      r.versions.flatMap fun v => [v.1, v.2]) := by
    simp [Refusal.body]
  rw [hbytes]
  refine (reads_u16 r.reason).exhausts_bind ?_
  -- A written list of versions is never left out, so the reader is not yet at the end.
  refine Exhausts.peek_bind rfl ?_
  refine (reads_u8 _).exhausts_bind ?_
  dsimp only
  rw [hcount]
  refine (reads_times fun v _ _ => ?_).bind_pure.exhausts
  exact (reads_u8 v.1).bind (reads_u8 v.2).bind_pure

theorem Request.exhausts_parse {r : Request} {h : Header}
    (hobject : r.object.isSome = h.flags.hasObject) (auth : List UInt8) :
    Exhausts (Request.parse h auth) o n (r.body o) { r with header := h, auth } := by
  have hbytes : r.body o = o.word32 r.allocHint ++ (o.word16 r.contextId ++ (o.word16 r.opnum ++
      (objectBytes o r.object ++ r.stub))) := by
    simp [Request.body]
  rw [hbytes]
  refine (reads_u32 r.allocHint).exhausts_bind ?_
  refine (reads_u16 r.contextId).exhausts_bind ?_
  refine (reads_u16 r.opnum).exhausts_bind ?_
  cases hr : r.object with
  | none =>
    have hflag : h.flags.hasObject = false := by rw [← hobject, hr]; rfl
    simp only [hflag, Bool.false_eq_true, if_false]
    refine (reads_pure none).exhausts_bind ?_
    refine (exhausts_remainder r.stub).bind_pure.trans ?_
    rw [← hr]
  | some u =>
    have hflag : h.flags.hasObject = true := by rw [← hobject, hr]; rfl
    simp only [hflag, if_true]
    refine (reads_uuid u).map.exhausts_bind ?_
    refine (exhausts_remainder r.stub).bind_pure.trans ?_
    rw [← hr]

theorem Response.exhausts_parse (r : Response) (h : Header) (auth : List UInt8) :
    Exhausts (Response.parse h auth) o n (r.body o) { r with header := h, auth } := by
  have hbytes : r.body o = o.word32 r.allocHint ++ (o.word16 r.contextId ++ ([r.cancelCount] ++
      ([0] ++ r.stub))) := by
    simp [Response.body]
  rw [hbytes]
  refine (reads_u32 r.allocHint).exhausts_bind ?_
  refine (reads_u16 r.contextId).exhausts_bind ?_
  refine (reads_u8 r.cancelCount).exhausts_bind ?_
  refine (reads_skip 1 rfl).exhausts_bind ?_
  exact (exhausts_remainder r.stub).bind_pure

theorem Fault.exhausts_parse (f : Fault) (h : Header) (auth : List UInt8) :
    Exhausts (Fault.parse h auth) o n (f.body o) { f with header := h, auth } := by
  have hbytes : f.body o = o.word32 f.allocHint ++ (o.word16 f.contextId ++ ([f.cancelCount] ++
      ([0] ++ (o.word32 f.status ++ o.word32 0)))) := by
    simp [Fault.body]
  rw [hbytes]
  apply Reads.exhausts
  refine (reads_u32 f.allocHint).bind ?_
  refine (reads_u16 f.contextId).bind ?_
  refine (reads_u8 f.cancelCount).bind ?_
  refine (reads_skip 1 rfl).bind ?_
  refine (reads_u32 f.status).bind ?_
  exact (reads_skip 4 (ByteOrder.length_word32 o 0)).bind_pure

end Bodies

/-! ## Units -/

namespace Pdu

/-- The packet kinds that a header may have, by what the unit is. -/
def kinds : Pdu → List PacketKind
  | bind _ => [.bind]
  | alterContext _ => [.alterContext]
  | bindAck _ => [.bindAck]
  | alterContextResponse _ => [.alterContextResponse]
  | bindNak _ => [.bindNak]
  | request _ => [.request]
  | response _ => [.response]
  | fault _ => [.fault]
  | other .. => [.auth3, .shutdown, .cancelRequest, .orphaned]

def withHeader (h : Header) : Pdu → Pdu
  | bind p => bind { p with header := h }
  | alterContext p => alterContext { p with header := h }
  | bindAck a => bindAck { a with header := h }
  | alterContextResponse a => alterContextResponse { a with header := h }
  | bindNak r => bindNak { r with header := h }
  | request r => request { r with header := h }
  | response r => response { r with header := h }
  | fault f => fault { f with header := h }
  | other _ bs => other h bs

/-- The unit with other lengths in its header. -/
def withLengths (fragmentLength authLength : UInt16) (u : Pdu) : Pdu :=
  u.withHeader (u.header.withLengths fragmentLength authLength)

end Pdu

/-! ## Each kind -/

section Kinds

variable {b : List UInt8}

/-- Header, verifier and body of a framed unit, as a reader of one kind takes them. -/
theorem Framed.decode {α : Type} {h : Header} {bs auth : List UInt8} {kinds : List PacketKind}
    (hb : Framed h bs auth b) (hkind : h.kind ∈ kinds) (p : Header → List UInt8 → Parse α) {a : α}
    (hp : Exhausts (p (Framed.header h auth b) auth) h.representation.order Header.size bs a)
    (tail : List UInt8) :
    (Header.expect kinds (b ++ tail) >>= fun h =>
      Body.run (p h (Body.verifier h (b ++ tail))) h (b ++ tail)) = .ok a := by
  rw [hb.expect hkind tail]
  change Body.run (p _ (Body.verifier _ (b ++ tail))) _ (b ++ tail) = _
  rw [hb.verifier_eq tail]
  exact hb.run hp tail

theorem Proposal.decode_of_framed {p : Proposal}
    (hb : Framed p.header (p.body p.header.representation.order) p.auth b)
    (hkind : p.header.kind ∈ [PacketKind.bind, .alterContext]) (hp : p.contexts.length < 256)
    (hcs : ∀ c ∈ p.contexts, c.transferSyntaxes.length < 256) (tail : List UInt8) :
    Proposal.decode (b ++ tail) = .ok { p with header := Framed.header p.header p.auth b } :=
  hb.decode hkind Proposal.parse (Proposal.exhausts_parse hp hcs _ _) tail

theorem Acknowledgement.decode_of_framed {a : Acknowledgement}
    (hb : Framed a.header (a.body a.header.representation.order) a.auth b)
    (hkind : a.header.kind ∈ [PacketKind.bindAck, .alterContextResponse])
    (ha : a.answers.length < 256) (haddress : (addressBytes a.address).length < 65536)
    (tail : List UInt8) :
    Acknowledgement.decode (b ++ tail) = .ok { a with header := Framed.header a.header a.auth b } :=
  hb.decode hkind Acknowledgement.parse (Acknowledgement.exhausts_parse ha haddress _ _) tail

theorem Refusal.decode_of_framed {r : Refusal}
    (hb : Framed r.header (r.body r.header.representation.order) [] b)
    (hkind : r.header.kind ∈ [PacketKind.bindNak]) (hr : r.versions.length < 256)
    (tail : List UInt8) :
    Refusal.decode (b ++ tail) = .ok { r with header := Framed.header r.header [] b } := by
  unfold Refusal.decode
  exact hb.decode hkind (fun h _ => Refusal.parse h) (Refusal.exhausts_parse hr _) tail

theorem Request.decode_of_framed {r : Request}
    (hb : Framed r.header (r.body r.header.representation.order) r.auth b)
    (hkind : r.header.kind ∈ [PacketKind.request])
    (hobject : r.object.isSome = r.header.flags.hasObject) (tail : List UInt8) :
    Request.decode (b ++ tail) = .ok { r with header := Framed.header r.header r.auth b } := by
  have hflag : r.object.isSome = (Framed.header r.header r.auth b).flags.hasObject := hobject
  exact hb.decode hkind Request.parse (Request.exhausts_parse hflag _) tail

theorem Response.decode_of_framed {r : Response}
    (hb : Framed r.header (r.body r.header.representation.order) r.auth b)
    (hkind : r.header.kind ∈ [PacketKind.response]) (tail : List UInt8) :
    Response.decode (b ++ tail) = .ok { r with header := Framed.header r.header r.auth b } :=
  hb.decode hkind Response.parse (Response.exhausts_parse r _ _) tail

theorem Fault.decode_of_framed {f : Fault}
    (hb : Framed f.header (f.body f.header.representation.order) f.auth b)
    (hkind : f.header.kind ∈ [PacketKind.fault]) (tail : List UInt8) :
    Fault.decode (b ++ tail) = .ok { f with header := Framed.header f.header f.auth b } :=
  hb.decode hkind Fault.parse (Fault.exhausts_parse f _ _) tail

end Kinds

/-- A raw body is kept whole, verifier included. -/
theorem Framed.raw_body {h : Header} {bs auth b : List UInt8} (hb : Framed h bs auth b)
    (tail : List UInt8) :
    ((b ++ tail).take (Framed.header h auth b).fragmentLength.toNat).drop Header.size = bs ++ auth := by
  have hlength : (Framed.header h auth b).fragmentLength.toNat = b.length := hb.toNat_lengths.1
  rw [hlength, List.take_left' rfl]
  have hdrop := congrArg (List.drop Header.size) hb.bytes
  rw [List.append_assoc, List.drop_left' (Header.length_encode ..)] at hdrop
  exact hdrop

namespace Pdu

/-- A framed unit is read back from its own bytes, whatever follows them. -/
theorem decode_of_framed {u : Pdu} {b : List UInt8} (hkind : u.header.kind ∈ u.kinds)
    (hcount : u.Countable)
    (hb : Framed u.header (u.body u.header.representation.order) u.verifier b) (tail : List UInt8) :
    decode (b ++ tail) = .ok (u.withHeader (Framed.header u.header u.verifier b)) := by
  have hparse := hb.parse tail
  unfold decode
  rw [hparse, ok_bind]
  cases u with
  | bind p =>
    have hk : p.header.kind = .bind := List.mem_singleton.mp hkind
    have hdecode := Proposal.decode_of_framed hb (by rw [hk]; decide) hcount.1 hcount.2 tail
    rw [show (Framed.header (Pdu.bind p).header _ b).kind = _ from hk]
    exact congrArg (Pdu.bind <$> ·) hdecode
  | alterContext p =>
    have hk : p.header.kind = .alterContext := List.mem_singleton.mp hkind
    have hdecode := Proposal.decode_of_framed hb (by rw [hk]; decide) hcount.1 hcount.2 tail
    rw [show (Framed.header (Pdu.alterContext p).header _ b).kind = _ from hk]
    exact congrArg (Pdu.alterContext <$> ·) hdecode
  | bindAck a =>
    have hk : a.header.kind = .bindAck := List.mem_singleton.mp hkind
    have hdecode := Acknowledgement.decode_of_framed hb (by rw [hk]; decide) hcount.1 hcount.2 tail
    rw [show (Framed.header (Pdu.bindAck a).header _ b).kind = _ from hk]
    exact congrArg (Pdu.bindAck <$> ·) hdecode
  | alterContextResponse a =>
    have hk : a.header.kind = .alterContextResponse := List.mem_singleton.mp hkind
    have hdecode := Acknowledgement.decode_of_framed hb (by rw [hk]; decide) hcount.1 hcount.2 tail
    rw [show (Framed.header (Pdu.alterContextResponse a).header _ b).kind = _ from hk]
    exact congrArg (Pdu.alterContextResponse <$> ·) hdecode
  | bindNak r =>
    have hk : r.header.kind = .bindNak := List.mem_singleton.mp hkind
    have hdecode := Refusal.decode_of_framed hb hkind hcount tail
    rw [show (Framed.header (Pdu.bindNak r).header _ b).kind = _ from hk]
    exact congrArg (Pdu.bindNak <$> ·) hdecode
  | request r =>
    have hk : r.header.kind = .request := List.mem_singleton.mp hkind
    have hdecode := Request.decode_of_framed hb hkind hcount tail
    rw [show (Framed.header (Pdu.request r).header _ b).kind = _ from hk]
    exact congrArg (Pdu.request <$> ·) hdecode
  | response r =>
    have hk : r.header.kind = .response := List.mem_singleton.mp hkind
    have hdecode := Response.decode_of_framed hb hkind tail
    rw [show (Framed.header (Pdu.response r).header _ b).kind = _ from hk]
    exact congrArg (Pdu.response <$> ·) hdecode
  | fault f =>
    have hk : f.header.kind = .fault := List.mem_singleton.mp hkind
    have hdecode := Fault.decode_of_framed hb hkind tail
    rw [show (Framed.header (Pdu.fault f).header _ b).kind = _ from hk]
    exact congrArg (Pdu.fault <$> ·) hdecode
  | other h bs =>
    have hraw := hb.raw_body tail
    have hwhole : (Pdu.other h bs).body h.representation.order ++ (Pdu.other h bs).verifier = bs :=
      List.take_append_drop _ bs
    have hkinds : h.kind = .auth3 ∨ h.kind = .shutdown ∨ h.kind = .cancelRequest ∨
        h.kind = .orphaned := by simpa [kinds, header] using hkind
    rcases hkinds with hk | hk | hk | hk <;>
    · rw [show (Framed.header (Pdu.other h bs).header _ b).kind = _ from hk]
      exact congrArg (fun bs => Except.ok (Pdu.other _ bs)) (hraw.trans hwhole)

/-- **Decoding undoes encoding.** The two lengths of the header are those of the unit and of its
verifier; nothing else is changed. -/
theorem decode_append_of_encode {u : Pdu} {b : List UInt8} (hkind : u.header.kind ∈ u.kinds)
    (hencode : u.encode = .ok b) :
    (16 ≤ b.length ∧ b.length ≤ 65535) ∧
      (Header.announced u.header.representation.order b).toNat = b.length ∧
      (Header.announcedAuth u.header.representation.order b).toNat = u.verifier.length ∧
      ∀ tail, decode (b ++ tail)
        = .ok (u.withLengths (UInt16.ofNat b.length) (UInt16.ofNat u.verifier.length)) := by
  obtain ⟨hcount, hb⟩ := encode_ok_iff.mp hencode
  have hlength := hb.length_eq
  have hlt := hb.length_lt
  refine ⟨⟨?_, ?_⟩, hb.announced.1, hb.announced.2, decode_of_framed hkind hcount hb⟩
  · rw [hlength, Header.size]
    omega
  · omega

/-- Big-endian, with an address that ends in a zero of its own and with a verifier. -/
def sampleAcknowledgement : Acknowledgement where
  header := { Header.of .bindAck 7 with representation := ⟨0x01, 2, 0, 0⟩, authLength := 99 }
  maxTransmit := 1432
  maxReceive := 4280
  group := 0x01020304
  address := "\\PIPE\\é\x00"
  answers := [.accept .ndr2, .reject .negotiateAck .abstractSyntaxNotSupported]
  auth := [9, 8, 7]

theorem decode_append_sampleAcknowledgement :
    ∃ b, (bindAck sampleAcknowledgement).encode = .ok b ∧ b.length = 91 ∧
      (bindAck sampleAcknowledgement).header.kind ∈ (bindAck sampleAcknowledgement).kinds ∧
      decode (b ++ [5, 0, 11]) = .ok ((bindAck sampleAcknowledgement).withLengths 91 3) := by
  refine ⟨_, rfl, by decide, by decide, ?_⟩
  exact (decode_append_of_encode (by decide) rfl).2.2.2 [5, 0, 11]

end Pdu

end RemoteCall
