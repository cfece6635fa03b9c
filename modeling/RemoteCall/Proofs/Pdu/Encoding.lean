import RemoteCall.Proofs.Pdu.Framing

/-! What is written for a unit of each kind, as plain bytes. `Pdu.body` gives the bytes between
header and verifier, `Pdu.Countable` says that every count and length fits its field, and
`Pdu.encode_ok_iff` ties both to the encoder: it succeeds exactly on countable units that can be
framed, and then writes nothing else. -/

namespace RemoteCall

theorem byteCount_ok_iff {n : Nat} {defect : ParameterDefect} {count : UInt8} :
    byteCount n defect = .ok count ↔ n < 256 ∧ count = UInt8.ofNat n := by
  unfold byteCount
  split
  · rename_i hn
    simp [hn, eq_comm]
  · rename_i hn
    simp [hn]

theorem ok_bind {α β : Type} (a : α) (f : α → Except Error β) : (Except.ok a >>= f) = f a := rfl

/-- A sequence of two computations succeeds exactly when both do. -/
theorem bind_ok_iff {α β : Type} {x : Except Error α} {f : α → Except Error β} {b : β} :
    (x >>= f) = .ok b ↔ ∃ a, x = .ok a ∧ f a = .ok b := by
  cases x with
  | error e =>
    constructor
    · intro h
      cases h
    · rintro ⟨a, ha, _⟩
      cases ha
  | ok a => simp [bind, Except.bind]

/-! ## Bodies -/

def Context.bytes (o : ByteOrder) (c : Context) : List UInt8 :=
  o.word16 c.id ++ [UInt8.ofNat c.transferSyntaxes.length, 0] ++ c.abstractSyntax.encode o
    ++ c.transferSyntaxes.flatMap (·.encode o)

def Proposal.body (o : ByteOrder) (p : Proposal) : List UInt8 :=
  o.word16 p.maxTransmit ++ o.word16 p.maxReceive ++ o.word32 p.group
    ++ [UInt8.ofNat p.contexts.length, 0, 0, 0] ++ p.contexts.flatMap (·.bytes o)

namespace Acknowledgement

/-- The address, with its terminator unless it is empty. -/
def addressBytes (address : String) : List UInt8 :=
  if (Utf8.encode address).isEmpty then [] else Utf8.encode address ++ [0]

/-- What stands in front of the answers, without padding. -/
def fixedBytes (o : ByteOrder) (a : Acknowledgement) : List UInt8 :=
  o.word16 a.maxTransmit ++ o.word16 a.maxReceive ++ o.word32 a.group
    ++ (o.word16 (UInt16.ofNat (addressBytes a.address).length) ++ addressBytes a.address)

def body (o : ByteOrder) (a : Acknowledgement) : List UInt8 :=
  a.fixedBytes o ++ List.replicate ((4 - (Header.size + (a.fixedBytes o).length) % 4) % 4) 0
    ++ [UInt8.ofNat a.answers.length, 0, 0, 0] ++ a.answers.flatMap (·.encode o)

end Acknowledgement

def Refusal.body (o : ByteOrder) (r : Refusal) : List UInt8 :=
  o.word16 r.reason ++ [UInt8.ofNat r.versions.length] ++ r.versions.flatMap fun v => [v.1, v.2]

def Request.objectBytes (o : ByteOrder) : Option Uuid → List UInt8
  | some u => u.encode o
  | none => []

def Request.body (o : ByteOrder) (r : Request) : List UInt8 :=
  o.word32 r.allocHint ++ o.word16 r.contextId ++ o.word16 r.opnum ++ objectBytes o r.object ++ r.stub

def Response.body (o : ByteOrder) (r : Response) : List UInt8 :=
  o.word32 r.allocHint ++ o.word16 r.contextId ++ [r.cancelCount, 0] ++ r.stub

def Fault.body (o : ByteOrder) (f : Fault) : List UInt8 :=
  o.word32 f.allocHint ++ o.word16 f.contextId ++ [f.cancelCount, 0] ++ o.word32 f.status ++ o.word32 0

namespace Pdu

/-- The bytes between header and verifier. -/
def body (o : ByteOrder) : Pdu → List UInt8
  | bind p | alterContext p => p.body o
  | bindAck a | alterContextResponse a => a.body o
  | bindNak r => r.body o
  | request r => r.body o
  | response r => r.body o
  | fault f => f.body o
  | other h bs => bs.take (bs.length - h.authLength.toNat)

/-- The verifier. That of a unit with a raw body is the end of this body. -/
def verifier : Pdu → List UInt8
  | bind p | alterContext p => p.auth
  | bindAck a | alterContextResponse a => a.auth
  | bindNak _ => []
  | request r => r.auth
  | response r => r.auth
  | fault f => f.auth
  | other h bs => bs.drop (bs.length - h.authLength.toNat)

/-- Every list and the address fit the field that counts them, and the object flag tells the truth. -/
def Countable : Pdu → Prop
  | bind p | alterContext p =>
    p.contexts.length < 256 ∧ ∀ c ∈ p.contexts, c.transferSyntaxes.length < 256
  | bindAck a | alterContextResponse a =>
    a.answers.length < 256 ∧ (Acknowledgement.addressBytes a.address).length < 65536
  | bindNak r => r.versions.length < 256
  | request r => r.object.isSome = r.header.flags.hasObject
  | _ => True

end Pdu

/-! ## The encoder writes them -/

theorem Context.encode_ok_iff {o : ByteOrder} {c : Context} {bs : List UInt8} :
    c.encode o = .ok bs ↔ c.transferSyntaxes.length < 256 ∧ bs = c.bytes o := by
  simp only [Context.encode, Context.bytes, bind_ok_iff, byteCount_ok_iff, pure, Except.pure,
    Except.ok.injEq]
  constructor
  · rintro ⟨count, ⟨hn, rfl⟩, rfl⟩
    exact ⟨hn, rfl⟩
  · rintro ⟨hn, rfl⟩
    exact ⟨_, ⟨hn, rfl⟩, rfl⟩

theorem Context.encodeAll_ok_iff {o : ByteOrder} {cs : List Context} {bs : List UInt8} :
    Context.encodeAll o cs = .ok bs ↔
      (∀ c ∈ cs, c.transferSyntaxes.length < 256) ∧ bs = cs.flatMap (·.bytes o) := by
  induction cs generalizing bs with
  | nil => simp [Context.encodeAll, eq_comm]
  | cons c cs ih =>
    simp only [Context.encodeAll, bind_ok_iff, Context.encode_ok_iff, ih, pure, Except.pure,
      Except.ok.injEq, List.forall_mem_cons, List.flatMap_cons]
    constructor
    · rintro ⟨x, ⟨hc, rfl⟩, y, ⟨hcs, rfl⟩, rfl⟩
      exact ⟨⟨hc, hcs⟩, rfl⟩
    · rintro ⟨⟨hc, hcs⟩, rfl⟩
      exact ⟨_, ⟨hc, rfl⟩, _, ⟨hcs, rfl⟩, rfl⟩

theorem Proposal.encode_ok_iff {p : Proposal} {b : List UInt8} :
    p.encode = .ok b ↔
      (p.contexts.length < 256 ∧ ∀ c ∈ p.contexts, c.transferSyntaxes.length < 256) ∧
        Framed p.header (p.body p.header.representation.order) p.auth b := by
  simp only [Proposal.encode, Proposal.body, bind_ok_iff, byteCount_ok_iff, assemble_ok_iff,
    Context.encodeAll_ok_iff, pure, Except.pure, Except.ok.injEq]
  constructor
  · rintro ⟨count, ⟨hn, rfl⟩, bs, ⟨cs, ⟨hcs, rfl⟩, rfl⟩, hb⟩
    exact ⟨⟨hn, hcs⟩, hb⟩
  · rintro ⟨⟨hn, hcs⟩, hb⟩
    exact ⟨_, ⟨hn, rfl⟩, _, ⟨_, ⟨hcs, rfl⟩, rfl⟩, hb⟩

theorem Acknowledgement.addressField_ok_iff {o : ByteOrder} {address : String} {bs : List UInt8} :
    addressField o address = .ok bs ↔
      (addressBytes address).length < 65536 ∧
        bs = o.word16 (UInt16.ofNat (addressBytes address).length) ++ addressBytes address := by
  unfold addressField addressBytes
  simp only
  split
  · simp [eq_comm]
  · split
    · rename_i hlong
      simp only [List.length_append, List.length_singleton]
      constructor
      · intro h
        cases h
      · intro h
        omega
    · rename_i hlong
      simp only [List.length_append, List.length_singleton, Except.ok.injEq, List.append_assoc]
      constructor
      · rintro rfl
        exact ⟨by omega, rfl⟩
      · rintro ⟨_, rfl⟩
        rfl

theorem Acknowledgement.encode_ok_iff {a : Acknowledgement} {b : List UInt8} :
    a.encode = .ok b ↔
      (a.answers.length < 256 ∧ (addressBytes a.address).length < 65536) ∧
        Framed a.header (a.body a.header.representation.order) a.auth b := by
  simp only [Acknowledgement.encode, Acknowledgement.body, Acknowledgement.fixedBytes, bind_ok_iff,
    byteCount_ok_iff, assemble_ok_iff, addressField_ok_iff, pure, Except.pure, Except.ok.injEq]
  constructor
  · rintro ⟨count, ⟨hn, rfl⟩, bs, ⟨address, ⟨ha, rfl⟩, rfl⟩, hb⟩
    exact ⟨⟨hn, ha⟩, hb⟩
  · rintro ⟨⟨hn, ha⟩, hb⟩
    exact ⟨_, ⟨hn, rfl⟩, _, ⟨_, ⟨ha, rfl⟩, rfl⟩, hb⟩

theorem Refusal.encode_ok_iff {r : Refusal} {b : List UInt8} :
    r.encode = .ok b ↔
      r.versions.length < 256 ∧ Framed r.header (r.body r.header.representation.order) [] b := by
  simp only [Refusal.encode, Refusal.body, bind_ok_iff, byteCount_ok_iff, assemble_ok_iff,
    Except.ok.injEq]
  constructor
  · rintro ⟨count, ⟨hn, rfl⟩, bs, rfl, hb⟩
    exact ⟨hn, hb⟩
  · rintro ⟨hn, hb⟩
    exact ⟨_, ⟨hn, rfl⟩, _, rfl, hb⟩

/-- Of a body that cannot fail. -/
theorem assemble_total_ok_iff (body : ByteOrder → List UInt8) {h : Header} {auth b : List UInt8} :
    assemble h (fun o => .ok (body o)) auth = .ok b ↔
      Framed h (body h.representation.order) auth b := by
  simp [assemble_ok_iff]

theorem Request.encode_ok_iff {r : Request} {b : List UInt8} :
    r.encode = .ok b ↔
      r.object.isSome = r.header.flags.hasObject ∧
        Framed r.header (r.body r.header.representation.order) r.auth b := by
  unfold Request.encode
  by_cases hobject : r.object.isSome = r.header.flags.hasObject
  · simp only [hobject, bne_self_eq_false, Bool.false_eq_true, if_false, true_and]
    exact assemble_total_ok_iff fun o => r.body o
  · have hne : (r.object.isSome != r.header.flags.hasObject) = true := by simpa using hobject
    simp only [hne, if_true]
    constructor
    · intro h
      cases h
    · rintro ⟨h, _⟩
      exact absurd h hobject

theorem Response.encode_ok_iff {r : Response} {b : List UInt8} :
    r.encode = .ok b ↔ Framed r.header (r.body r.header.representation.order) r.auth b :=
  assemble_total_ok_iff fun o => r.body o

theorem Fault.encode_ok_iff {f : Fault} {b : List UInt8} :
    f.encode = .ok b ↔ Framed f.header (f.body f.header.representation.order) f.auth b :=
  assemble_total_ok_iff fun o => f.body o

/-- The encoder succeeds exactly on countable units that can be framed. -/
theorem Pdu.encode_ok_iff {u : Pdu} {b : List UInt8} :
    u.encode = .ok b ↔
      u.Countable ∧ Framed u.header (u.body u.header.representation.order) u.verifier b := by
  cases u with
  | bind p => exact Proposal.encode_ok_iff
  | alterContext p => exact Proposal.encode_ok_iff
  | bindAck a => exact Acknowledgement.encode_ok_iff
  | alterContextResponse a => exact Acknowledgement.encode_ok_iff
  | bindNak r => exact Refusal.encode_ok_iff
  | request r => exact Request.encode_ok_iff
  | response r => exact Response.encode_ok_iff.trans (iff_of_eq (true_and _).symm)
  | fault f => exact Fault.encode_ok_iff.trans (iff_of_eq (true_and _).symm)
  | other h bs =>
    have hassemble := @assemble_total_ok_iff (fun _ => bs.take (bs.length - h.authLength.toNat)) h
      (bs.drop (bs.length - h.authLength.toNat)) b
    exact hassemble.trans (iff_of_eq (true_and _).symm)

end RemoteCall
