import RemoteCall.Fragment
import RemoteCall.Proofs.Pdu.Encoding

/-! What can go wrong with a unit. Reading fails only because of the bytes that are read
(`Pdu.isDecodeError_of_decode`). Writing fails only because a value does not fit its field or the
label is none that can be read (`Pdu.encode_failsOnly`). So neither is ever taken for an answer of
the other side. -/

namespace RemoteCall

/-- Nothing goes wrong but what `P` says. -/
def FailsOnly {α : Type} (P : Error → Prop) (x : Except Error α) : Prop := ∀ e, x = .error e → P e

/-- Whatever goes wrong is put down to the bytes. -/
abbrev BlamesBytes {α : Type} (x : Except Error α) : Prop := FailsOnly (·.isDecodeError = true) x

section Results

variable {α β : Type} {P Q : Error → Prop}

theorem failsOnly_ok (a : α) : FailsOnly P (.ok a : Except Error α) := nofun

theorem failsOnly_error {e : Error} (h : P e) : FailsOnly P (.error e : Except Error α) := by
  rintro _ ⟨⟩
  exact h

theorem FailsOnly.mono {x : Except Error α} (hx : FailsOnly P x) (h : ∀ e, P e → Q e) :
    FailsOnly Q x := fun e he => h e (hx e he)

theorem FailsOnly.bind {x : Except Error α} {f : α → Except Error β} (hx : FailsOnly P x)
    (hf : ∀ a, FailsOnly P (f a)) : FailsOnly P (x >>= f) := by
  cases x with
  | ok a => exact hf a
  | error e => exact failsOnly_error (hx e rfl)

theorem FailsOnly.map {x : Except Error α} (hx : FailsOnly P x) (f : α → β) :
    FailsOnly P (x.map f) := by
  cases x with
  | ok a => exact failsOnly_ok (f a)
  | error e => exact failsOnly_error (hx e rfl)

/-- A check in front of what follows. -/
theorem FailsOnly.guarded {p : Prop} [Decidable p] {e : Error} {x : Except Error β} (he : P e)
    (hx : FailsOnly P x) : FailsOnly P (do if p then throw e else pure (); x) := by
  split
  · exact failsOnly_error he
  · exact hx

end Results

/-! ## Headers -/

theorem Label.blamesBytes_ofRepresentation (r : Representation) :
    BlamesBytes (ofRepresentation r) := by
  unfold ofRepresentation
  dsimp only
  split
  · exact failsOnly_error rfl
  · split
    · exact failsOnly_error rfl
    · split
      · exact failsOnly_error rfl
      · exact failsOnly_ok _

theorem Header.blamesBytes_parse (data : List UInt8) : BlamesBytes (parse data) := by
  refine .guarded rfl ((Label.blamesBytes_ofRepresentation _).bind fun l => ?_)
  dsimp only
  split
  · exact failsOnly_error rfl
  · exact .guarded rfl (.guarded rfl (.guarded rfl (failsOnly_ok _)))

theorem Header.blamesBytes_expect (kinds : List PacketKind) (data : List UInt8) :
    BlamesBytes (expect kinds data) := by
  refine (blamesBytes_parse data).bind fun h => ?_
  split
  · exact failsOnly_ok _
  · exact failsOnly_error rfl

/-! ## Bodies -/

namespace Body

/-- A reader that fails only because of the bytes, wherever it stands. -/
def Blames {α : Type} (p : Parse α) : Prop := ∀ c, BlamesBytes (p c)

section Readers

variable {α β : Type} {p : Parse α} {f : α → Parse β}

theorem blames_pure (a : α) : Blames (pure a : Parse α) := fun c => failsOnly_ok (a, c)

theorem Blames.bind (hp : Blames p) (hf : ∀ a, Blames (f a)) : Blames (p >>= f) :=
  fun c => (hp c).bind fun x => hf x.1 x.2

theorem Blames.map (k : α → β) (hp : Blames p) : Blames (k <$> p) := by
  rw [map_eq_pure_bind]
  exact hp.bind fun a => blames_pure (k a)

theorem blames_take (n : Nat) : Blames (take n) := by
  intro c
  unfold take
  split
  · exact failsOnly_ok _
  · exact failsOnly_error rfl

theorem blames_skip (n : Nat) : Blames (skip n) := (blames_take n).bind fun _ => blames_pure ()

theorem blames_u8 : Blames u8 := (blames_take 1).bind fun _ => blames_pure _

/-- A field of fixed width. -/
theorem blames_ordered (decode : ByteOrder → List UInt8 → α) (n : Nat) :
    Blames (do return decode (← order) (← take n)) :=
  Blames.bind (fun c => failsOnly_ok (c.order, c)) fun _ => (blames_take n).bind fun _ =>
    blames_pure _

theorem blames_u16 : Blames u16 := blames_ordered ByteOrder.read16 2

theorem blames_u32 : Blames u32 := blames_ordered ByteOrder.read32 4

theorem blames_uuid : Blames uuid := blames_ordered Uuid.decode 16

theorem blames_syntaxId : Blames syntaxId :=
  blames_uuid.bind fun _ => blames_u32.bind fun _ => blames_pure _

theorem blames_position : Blames position := fun c => failsOnly_ok (c.position, c)

theorem blames_atEnd : Blames atEnd := fun c => failsOnly_ok (c.rest.isEmpty, c)

theorem blames_remainder : Blames remainder := fun _ => failsOnly_ok _

theorem blames_align (alignment : Nat) : Blames (align alignment) :=
  blames_position.bind fun _ => blames_skip _

theorem Blames.times (hp : Blames p) (n : Nat) : Blames (times p n) := by
  induction n with
  | zero => exact blames_pure []
  | succ n ih => exact hp.bind fun _ => ih.bind fun _ => blames_pure _

/-- The body of a unit of one of the kinds that are asked for. -/
theorem Blames.decode {kinds : List PacketKind} {p : Header → Parse α} (hp : ∀ h, Blames (p h))
    (data : List UInt8) : BlamesBytes (Header.expect kinds data >>= fun h => run (p h) h data) :=
  (Header.blamesBytes_expect kinds data).bind fun h => (hp h (start h data)).bind fun _ =>
    failsOnly_ok _

end Readers

end Body

open Body

theorem Context.blames_parse : Blames Context.parse :=
  blames_u16.bind fun _ => blames_u8.bind fun _ => (blames_skip 1).bind fun _ =>
    blames_syntaxId.bind fun _ => (blames_syntaxId.times _).bind fun _ => blames_pure _

theorem Proposal.blames_parse (h : Header) (auth : List UInt8) : Blames (Proposal.parse h auth) :=
  blames_u16.bind fun _ => blames_u16.bind fun _ => blames_u32.bind fun _ =>
    blames_u8.bind fun _ => (blames_skip 3).bind fun _ =>
      (Context.blames_parse.times _).bind fun _ => blames_pure _

theorem ContextAnswer.blames_parse : Blames ContextAnswer.parse :=
  blames_u16.bind fun _ => blames_u16.bind fun _ => blames_syntaxId.bind fun _ => blames_pure _

theorem Acknowledgement.blames_parse (h : Header) (auth : List UInt8) :
    Blames (Acknowledgement.parse h auth) := by
  refine blames_u16.bind fun _ => blames_u16.bind fun _ => blames_u32.bind fun _ =>
    blames_position.bind fun offset => blames_u16.bind fun _ => (blames_take _).bind fun bs => ?_
  cases addressOf? bs with
  | none => exact fun _ => failsOnly_error rfl
  | some address =>
    exact (blames_align 4).bind fun _ => blames_u8.bind fun _ => (blames_skip 3).bind fun _ =>
      (ContextAnswer.blames_parse.times _).bind fun _ => blames_pure _

theorem Refusal.blames_parse (h : Header) : Blames (Refusal.parse h) := by
  have hversion : Blames (do
      let major ← u8
      return (major, ← u8) : Parse (UInt8 × UInt8)) :=
    blames_u8.bind fun _ => blames_u8.bind fun _ => blames_pure _
  have hrest : ∀ (reason : UInt16) (count : UInt8), Blames (do
      let version : Parse (UInt8 × UInt8) := do
        let major ← u8
        return (major, ← u8)
      return (⟨h, reason, ← times version count.toNat⟩ : Refusal)) :=
    fun _ count => (hversion.times count.toNat).bind fun _ => blames_pure _
  refine blames_u16.bind fun reason => blames_atEnd.bind fun ended => ?_
  cases ended with
  | true => exact (blames_pure 0).bind fun count => hrest reason count
  | false => exact blames_u8.bind fun count => hrest reason count

theorem Request.blames_parse (h : Header) (auth : List UInt8) : Blames (Request.parse h auth) := by
  have hrest : ∀ allocHint contextId opnum object, Blames (do
      return (⟨h, allocHint, contextId, opnum, object, ← remainder, auth⟩ : Request)) :=
    fun _ _ _ _ => blames_remainder.bind fun _ => blames_pure _
  refine blames_u32.bind fun _ => blames_u16.bind fun _ => blames_u16.bind fun _ => ?_
  dsimp only
  split
  · exact (blames_uuid.map some).bind fun object => hrest _ _ _ object
  · exact (blames_pure none).bind fun object => hrest _ _ _ object

theorem Response.blames_parse (h : Header) (auth : List UInt8) : Blames (Response.parse h auth) :=
  blames_u32.bind fun _ => blames_u16.bind fun _ => blames_u8.bind fun _ =>
    (blames_skip 1).bind fun _ => blames_remainder.bind fun _ => blames_pure _

theorem Fault.blames_parse (h : Header) (auth : List UInt8) : Blames (Fault.parse h auth) :=
  blames_u32.bind fun _ => blames_u16.bind fun _ => blames_u8.bind fun _ =>
    (blames_skip 1).bind fun _ => blames_u32.bind fun _ => (blames_skip 4).bind fun _ =>
      blames_pure _

/-! ## Units -/

namespace Pdu

theorem blamesBytes_decode (data : List UInt8) : BlamesBytes (decode data) := by
  have hunit : ∀ {α : Type} {kinds : List PacketKind} {p : Header → Parse α} (mk : α → Pdu),
      (∀ h, Blames (p h)) → BlamesBytes (do
        return mk (← Header.expect kinds data >>= fun h => run (p h) h data)) :=
    fun mk hp => (Blames.decode hp data).bind fun a => failsOnly_ok (mk a)
  refine (Header.blamesBytes_parse data).bind fun h => ?_
  cases h.kind with
  | bind => exact hunit Pdu.bind fun h => Proposal.blames_parse h _
  | alterContext => exact hunit alterContext fun h => Proposal.blames_parse h _
  | bindAck => exact hunit bindAck fun h => Acknowledgement.blames_parse h _
  | alterContextResponse =>
    exact hunit alterContextResponse fun h => Acknowledgement.blames_parse h _
  | bindNak => exact hunit bindNak fun h => Refusal.blames_parse h
  | request => exact hunit request fun h => Request.blames_parse h _
  | response => exact hunit response fun h => Response.blames_parse h _
  | fault => exact hunit fault fun h => Fault.blames_parse h _
  | auth3 | shutdown | cancelRequest | orphaned => exact failsOnly_ok _

/-- A unit that cannot be read is told from all else that can go wrong. -/
theorem isDecodeError_of_decode {data : List UInt8} {e : Error} (h : decode data = .error e) :
    e.isDecodeError = true := blamesBytes_decode data e h

end Pdu

/-! ## Units that are written -/

/-- The value cannot be written, or nobody could read it. -/
def Error.IsUnwritable (e : Error) : Prop :=
  e.isDecodeError = true ∨ ∃ defect, e = .invalidParameter defect

theorem Error.isUnwritable_parameter (defect : ParameterDefect) :
    (Error.invalidParameter defect).IsUnwritable := .inr ⟨defect, rfl⟩

theorem assemble_failsOnly {h : Header} {body : ByteOrder → Except Error (List UInt8)}
    {auth : List UInt8} (hbody : ∀ o, FailsOnly Error.IsUnwritable (body o)) :
    FailsOnly Error.IsUnwritable (assemble h body auth) := by
  have hlabel : FailsOnly Error.IsUnwritable (Label.ofRepresentation h.representation) :=
    (Label.blamesBytes_ofRepresentation _).mono fun _ => Or.inl
  refine hlabel.bind fun l => (hbody l.integers).bind fun bs => ?_
  exact .guarded (Error.isUnwritable_parameter _)
    (.guarded (Error.isUnwritable_parameter _) (failsOnly_ok _))

theorem byteCount_failsOnly (n : Nat) (defect : ParameterDefect) :
    FailsOnly Error.IsUnwritable (byteCount n defect) := by
  unfold byteCount
  split
  · exact failsOnly_ok _
  · exact failsOnly_error (Error.isUnwritable_parameter defect)

theorem Context.encodeAll_failsOnly (o : ByteOrder) (cs : List Context) :
    FailsOnly Error.IsUnwritable (encodeAll o cs) := by
  induction cs with
  | nil => exact failsOnly_ok []
  | cons c cs ih =>
    have hc : FailsOnly Error.IsUnwritable (c.encode o) :=
      (byteCount_failsOnly _ _).bind fun _ => failsOnly_ok _
    exact hc.bind fun _ => ih.bind fun _ => failsOnly_ok _

theorem Proposal.encode_failsOnly (p : Proposal) : FailsOnly Error.IsUnwritable p.encode :=
  (byteCount_failsOnly _ _).bind fun _ => assemble_failsOnly fun o =>
    (Context.encodeAll_failsOnly o p.contexts).bind fun _ => failsOnly_ok _

theorem Acknowledgement.addressField_failsOnly (o : ByteOrder) (address : String) :
    FailsOnly Error.IsUnwritable (addressField o address) := by
  unfold addressField
  dsimp only
  split
  · exact failsOnly_ok _
  · split
    · exact failsOnly_error (Error.isUnwritable_parameter _)
    · exact failsOnly_ok _

theorem Acknowledgement.encode_failsOnly (a : Acknowledgement) :
    FailsOnly Error.IsUnwritable a.encode :=
  (byteCount_failsOnly _ _).bind fun _ => assemble_failsOnly fun o =>
    (addressField_failsOnly o a.address).bind fun _ => failsOnly_ok _

theorem Refusal.encode_failsOnly (r : Refusal) : FailsOnly Error.IsUnwritable r.encode :=
  (byteCount_failsOnly _ _).bind fun _ => assemble_failsOnly fun _ => failsOnly_ok _

theorem Request.encode_failsOnly (r : Request) : FailsOnly Error.IsUnwritable r.encode :=
  .guarded (Error.isUnwritable_parameter _) (assemble_failsOnly fun _ => failsOnly_ok _)

theorem Response.encode_failsOnly (r : Response) : FailsOnly Error.IsUnwritable r.encode := by
  unfold encode
  exact assemble_failsOnly fun _ => failsOnly_ok _

theorem Fault.encode_failsOnly (f : Fault) : FailsOnly Error.IsUnwritable f.encode := by
  unfold encode
  exact assemble_failsOnly fun _ => failsOnly_ok _

/-- Whatever unit it is, it is not written only because of what it holds. -/
theorem Pdu.encode_failsOnly (u : Pdu) : FailsOnly Error.IsUnwritable u.encode := by
  cases u with
  | bind p | alterContext p => exact p.encode_failsOnly
  | bindAck a | alterContextResponse a => exact a.encode_failsOnly
  | bindNak r => exact r.encode_failsOnly
  | request r => exact r.encode_failsOnly
  | response r => exact r.encode_failsOnly
  | fault f => exact f.encode_failsOnly
  | other h body => exact assemble_failsOnly fun _ => failsOnly_ok _

theorem roomFor_failsOnly (maxFragment : UInt16) (fixed : Nat) :
    FailsOnly Error.IsUnwritable (roomFor maxFragment fixed) := by
  unfold roomFor
  dsimp only
  split
  · exact failsOnly_error (Error.isUnwritable_parameter _)
  · exact failsOnly_ok _

theorem Request.fragments_failsOnly (callId : UInt32) (contextId opnum : UInt16)
    (object : Option Uuid) (payload : List UInt8) (maxFragment : UInt16) : FailsOnly
    Error.IsUnwritable (fragments callId contextId opnum object payload maxFragment) :=
  (roomFor_failsOnly _ _).bind fun _ => failsOnly_ok _

theorem Response.fragments_failsOnly (callId : UInt32) (contextId : UInt16) (payload : List UInt8)
    (maxFragment : UInt16) :
    FailsOnly Error.IsUnwritable (fragments callId contextId payload maxFragment) :=
  (roomFor_failsOnly _ _).bind fun _ => failsOnly_ok _

end RemoteCall
