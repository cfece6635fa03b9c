import RemoteCall.Proofs.Endpoint.Sharing
import RemoteCall.Proofs.Pdu.Sizes

/-! How a client writes integers, characters and floats makes no difference to an endpoint
(`Endpoint.process_withRepresentation`): a unit is read as the same content in whatever
representation it is written, and an endpoint looks at nothing but this content. -/

namespace RemoteCall

namespace Pdu

/-- The same unit, written in another representation. -/
def withRepresentation (r : Representation) (u : Pdu) : Pdu :=
  u.withHeader { u.header with representation := r }

/-- The unit without what its header tells about how it is written. -/
def content (u : Pdu) : Pdu :=
  u.withHeader { u.header with representation := .standard, fragmentLength := 0, authLength := 0 }

variable {u : Pdu} {r : Representation} {b : List UInt8}

theorem header_withHeader (u : Pdu) (h : Header) : (u.withHeader h).header = h := by
  cases u <;> rfl

theorem kinds_withHeader (u : Pdu) (h : Header) : (u.withHeader h).kinds = u.kinds := by
  cases u <;> rfl

/-- In whatever representation a unit is written, its content is read. -/
theorem exists_decode_content (hkind : u.header.kind ∈ u.kinds)
    (hencode : (u.withRepresentation r).encode = .ok b) :
    ∃ u', decode b = .ok u' ∧ u'.content = u.content := by
  obtain ⟨hcount, hb⟩ := encode_ok_iff.mp hencode
  have hkind' : (u.withRepresentation r).header.kind ∈ (u.withRepresentation r).kinds := by
    rw [withRepresentation, header_withHeader, kinds_withHeader]
    exact hkind
  have hdecode := Written.decode ⟨hkind', hcount, hb⟩
  refine ⟨_, hdecode, ?_⟩
  cases u <;> rfl

/-! ## Lengths -/

theorem length_body (o o' : ByteOrder) (u : Pdu) : (u.body o).length = (u.body o').length := by
  have hsize := size_eq o u
  have hsize' := size_eq o' u
  omega

/-- What can be written in one representation can be written in any other one. -/
theorem exists_encode_withRepresentation {r' : Representation}
    (hencode : (u.withRepresentation r).encode = .ok b)
    (hlabel : ∃ l, Label.ofRepresentation r' = .ok l) :
    ∃ b', (u.withRepresentation r').encode = .ok b' ∧ b'.length = b.length := by
  obtain ⟨hcount, hb⟩ := encode_ok_iff.mp hencode
  have hcount' : (u.withRepresentation r').Countable := by
    cases u <;> exact hcount
  have hlabel' : ∃ l, Label.ofRepresentation (u.withRepresentation r').header.representation = .ok l :=
    by rwa [withRepresentation, header_withHeader]
  have hbody : ((u.withRepresentation r').body
        (u.withRepresentation r').header.representation.order).length =
      ((u.withRepresentation r).body (u.withRepresentation r).header.representation.order).length := by
    refine (length_body _ (u.withRepresentation r).header.representation.order _).trans ?_
    cases u <;> rfl
  have hauth : (u.withRepresentation r').verifier = (u.withRepresentation r).verifier := by
    cases u <;> rfl
  have hlength := hb.length_eq
  rw [← hbody, ← hauth] at hlength
  obtain ⟨b', hb', hlength'⟩ := exists_framed hlabel' (hlength ▸ hb.length_lt)
  exact ⟨b', encode_ok_iff.mpr ⟨hcount', hb'⟩, hlength'.trans hlength.symm⟩

end Pdu

namespace Endpoint

variable {e : Endpoint} {g : GroupAllocator} {data data' : List UInt8} {u u' : Pdu}

theorem judgePdu_content (e : Endpoint) (g : GroupAllocator) (u : Pdu) :
    e.judgePdu g u.content = e.judgePdu g u := by
  cases u <;> rfl

/-- Units of the same content are judged the same. -/
theorem judge_of_content (hdecode : Pdu.decode data = .ok u) (hdecode' : Pdu.decode data' = .ok u')
    (hcontent : u'.content = u.content) : e.judge g data' = e.judge g data := by
  have hlooks : ∀ u : Pdu, (if u.header.major != Header.version && u.header.kind != .bind
      then (.protocolFault u.header.callId 0, e, g) else e.judgePdu g u) =
      (if u.content.header.major != Header.version && u.content.header.kind != .bind
      then (.protocolFault u.content.header.callId 0, e, g) else e.judgePdu g u.content) := by
    intro u
    rw [judgePdu_content, Pdu.content, Pdu.header_withHeader]
  rw [judge_of_decode hdecode, judge_of_decode hdecode', hlooks u, hlooks u', hcontent]

/-- Encodings of one unit in two representations. -/
def SameUnit (data data' : List UInt8) : Prop :=
  ∃ u : Pdu, u.header.kind ∈ u.kinds ∧ ∃ r r', (u.withRepresentation r).encode = .ok data ∧
    (u.withRepresentation r').encode = .ok data'

/-- Step: the same comes of both encodings. -/
theorem process_of_sameUnit (h : SameUnit data data') (e : Endpoint) (g : GroupAllocator) :
    e.process g data' = e.process g data := by
  obtain ⟨u, hkind, r, r', hencode, hencode'⟩ := h
  obtain ⟨_, hdecode, hcontent⟩ := Pdu.exists_decode_content hkind hencode
  obtain ⟨_, hdecode', hcontent'⟩ := Pdu.exists_decode_content hkind hencode'
  rw [process, process, judge_of_content hdecode hdecode' (hcontent'.trans hcontent.symm)]

/-- **The client's representation does not matter.** A unit that can be written in one representation
can be written in every other one that can be read, in as many bytes, and whatever the endpoint and
the allocator are, the same answers and the same states come of both encodings. -/
theorem process_withRepresentation (e : Endpoint) (g : GroupAllocator) {u : Pdu}
    (hkind : u.header.kind ∈ u.kinds) {r r' : Representation} {b : List UInt8}
    (hencode : (u.withRepresentation r).encode = .ok b)
    (hlabel : ∃ l, Label.ofRepresentation r' = .ok l) :
    ∃ b', (u.withRepresentation r').encode = .ok b' ∧ b'.length = b.length ∧
      e.process g b' = e.process g b := by
  obtain ⟨b', hencode', hlength⟩ := Pdu.exists_encode_withRepresentation hencode hlabel
  exact ⟨b', hencode', hlength, process_of_sameUnit ⟨u, hkind, r, r', hencode, hencode'⟩ e g⟩

def sampleProposal : Pdu := .bind (.bind 1 [⟨0, bareService.interface.id, [.ndr2]⟩])

/-- Little-endian, ASCII and IEEE, and then big-endian, EBCDIC and IBM. -/
theorem process_withRepresentation_sampleProposal :
    sampleProposal.header.kind ∈ sampleProposal.kinds ∧
    ∃ b b', (sampleProposal.withRepresentation .standard).encode = .ok b ∧
      (sampleProposal.withRepresentation ⟨0x01, 3, 0, 0⟩).encode = .ok b' ∧
      (ofService bareService).process .new b' = (ofService bareService).process .new b := by
  have hkind : sampleProposal.header.kind ∈ sampleProposal.kinds := by decide
  have hencode : (sampleProposal.withRepresentation .standard).encode =
      .ok (sampleBind 0 bareService) := by rfl
  have hlabel : ∃ l, Label.ofRepresentation ⟨0x01, 3, 0, 0⟩ = .ok l := ⟨⟨.big, .ebcdic, .ibm⟩, rfl⟩
  obtain ⟨b', hencode', -, hprocess⟩ := process_withRepresentation (ofService bareService) .new hkind
    hencode hlabel
  exact ⟨hkind, _, b', hencode, hencode', hprocess⟩

end Endpoint

/-- Run: in whatever representations the units of all clients are written, each endpoint answers the
same, and all that is shared goes through the same states. -/
theorem Sharing.run_of_sameUnits {ι : Type} [DecidableEq ι] (s : Sharing ι)
    {items items' : List (ι × List UInt8)}
    (h : List.Forall₂ (fun x x' => x.1 = x'.1 ∧ Endpoint.SameUnit x.2 x'.2) items items') :
    (s.exchanges items').map (fun x => (x.1, x.2.turn)) =
        (s.exchanges items).map (fun x => (x.1, x.2.turn)) ∧
      s.after items' = s.after items := by
  induction h generalizing s with
  | nil => exact ⟨rfl, rfl⟩
  | @cons x x' _ _ hunit _ ih =>
    obtain ⟨i, data⟩ := x
    obtain ⟨_, data'⟩ := x'
    obtain ⟨rfl, hunit⟩ := hunit
    have hturn : s.turn i data' = s.turn i data :=
      Endpoint.process_of_sameUnit hunit (s.endpoints i) s.groups
    have hstep : s.step i data' = s.step i data := by
      rw [step, step, hturn]
    obtain ⟨hexchanges, hafter⟩ := ih (s.step i data)
    refine ⟨?_, ?_⟩
    · rw [exchanges, exchanges, List.map_cons, List.map_cons, hturn, hstep, hexchanges]
    · rw [after, after, hstep, hafter]

end RemoteCall
