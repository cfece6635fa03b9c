import RemoteCall.Proofs.Pdu.Slices

/-! What the result of reading a unit depends on. The lengths of its header cut the bytes at hand
into header, body, verifier and what follows. A body is read from the bytes in front of the
verifier only, so bytes that agree up to there give the same unit but for its verifier
(`SameBody.decode_eq`), and what follows the fragment does not matter at all
(`decode_within_fragment`). -/

namespace RemoteCall

namespace Header

/-- Where the fragment ends, as its header announces it. -/
def fragmentEnd (data : List UInt8) : Nat := (announced (representationOf data).order data).toNat

/-- How long the verifier at the end of the fragment is, as the header announces it. -/
def verifierLength (data : List UInt8) : Nat :=
  (announcedAuth (representationOf data).order data).toNat

/-- Where the body ends, and the verifier begins. -/
def bodyEnd (data : List UInt8) : Nat := fragmentEnd data - verifierLength data

theorem bodyEnd_le (data : List UInt8) : bodyEnd data ≤ fragmentEnd data := Nat.sub_le ..

section Parse

variable {data data' : List UInt8} {h : Header}

/-- The lengths of a header are the ones that were announced. -/
theorem lengths_of_parse (hparse : parse data = .ok h) :
    h.fragmentLength.toNat = fragmentEnd data ∧ h.authLength.toNat = verifierLength data := by
  obtain ⟨-, hrest⟩ := of_guarded hparse
  obtain ⟨l, hl, hrest⟩ := bind_ok_iff.mp hrest
  rw [Label.integers_eq_order hl] at hrest
  cases hkind : PacketKind.ofTag? (data.getD 2 0) with
  | none =>
    rw [hkind] at hrest
    cases hrest
  | some kind =>
    rw [hkind] at hrest
    obtain ⟨-, hrest⟩ := of_guarded hrest
    obtain ⟨-, hrest⟩ := of_guarded hrest
    obtain ⟨-, hrest⟩ := of_guarded hrest
    cases hrest
    exact ⟨rfl, rfl⟩

/-- What is announced is there, and leaves room for the header. -/
theorem bounds_of_parse (hparse : parse data = .ok h) :
    fragmentEnd data ≤ data.length ∧ size + verifierLength data ≤ fragmentEnd data := by
  obtain ⟨-, -, hwithin, hlengths⟩ := atFront_of_parse hparse
  obtain ⟨hfragment, hauth⟩ := lengths_of_parse hparse
  rw [hfragment] at hwithin
  rw [hfragment, hauth] at hlengths
  exact ⟨hwithin, hlengths⟩

theorem window_congr (htake : data'.take size = data.take size) {i n : Nat} (h : i + n ≤ size) :
    (data'.drop i).take n = (data.drop i).take n := by
  have hwindow : ∀ bs : List UInt8, (bs.drop i).take n = ((bs.take size).drop i).take n := by
    intro bs
    rw [List.drop_take, List.take_take, Nat.min_eq_left (by omega)]
  rw [hwindow data', htake, ← hwindow]

theorem getD_congr (htake : data'.take size = data.take size) {i : Nat} (h : i < size) :
    data'.getD i 0 = data.getD i 0 := by
  have hget : ∀ bs : List UInt8, bs.getD i 0 = (bs.take size).getD i 0 := by
    intro bs
    rw [List.getD_eq_getElem?_getD, List.getD_eq_getElem?_getD, List.getElem?_take_of_lt h]
  rw [hget data', htake, ← hget]

/-- A header is read from its own bytes, if the fragment that it announces is there. -/
theorem parse_congr (htake : data'.take size = data.take size) (hlong : size ≤ data.length)
    (hlong' : size ≤ data'.length) (hend : fragmentEnd data ≤ data.length)
    (hend' : fragmentEnd data ≤ data'.length) : parse data' = parse data := by
  have hrep : representationOf data' = representationOf data := by
    unfold representationOf
    rw [getD_congr htake (by decide), getD_congr htake (by decide), getD_congr htake (by decide),
      getD_congr htake (by decide)]
  have hannounced : ∀ o, announced o data' = announced o data := fun o =>
    congrArg o.read16 (window_congr htake (by decide))
  have hshort : ¬ data.length < size := Nat.not_lt.mpr hlong
  have hshort' : ¬ data'.length < size := Nat.not_lt.mpr hlong'
  simp only [parse, hshort, hshort', if_false, hrep, hannounced,
    getD_congr htake (show 0 < size by decide), getD_congr htake (show 1 < size by decide),
    getD_congr htake (show 2 < size by decide), getD_congr htake (show 3 < size by decide),
    window_congr htake (show 10 + 2 ≤ size by decide),
    window_congr htake (show 12 + 4 ≤ size by decide)]
  cases hlabel : Label.ofRepresentation (representationOf data) with
  | error e => rfl
  | ok l =>
    have hwithin : ¬ (announced l.integers data).toNat > data.length := by
      rw [Label.integers_eq_order hlabel]
      exact Nat.not_lt.mpr hend
    have hwithin' : ¬ (announced l.integers data).toNat > data'.length := by
      rw [Label.integers_eq_order hlabel]
      exact Nat.not_lt.mpr hend'
    simp only [ok_bind, hwithin, hwithin', if_false]

end Parse

end Header

/-! ## Verifiers -/

namespace Pdu

/-- The same unit with another verifier. The one of a raw unit is the end of its body, and a refusal
has none. -/
def withVerifier (auth : List UInt8) : Pdu → Pdu
  | bind p => bind { p with auth }
  | alterContext p => alterContext { p with auth }
  | bindAck a => bindAck { a with auth }
  | alterContextResponse a => alterContextResponse { a with auth }
  | bindNak r => bindNak r
  | request r => request { r with auth }
  | response r => response { r with auth }
  | fault f => fault { f with auth }
  | other h body => other h (body.take (body.length - h.authLength.toNat) ++ auth)

theorem verifier_withVerifier {u : Pdu} {auth : List UInt8}
    (hauth : auth.length = u.header.authLength.toNat) (hrefusal : ∀ r, u ≠ .bindNak r) :
    (u.withVerifier auth).verifier = auth := by
  cases u with
  | bindNak r => exact absurd rfl (hrefusal r)
  | other h body =>
    have hauth : auth.length = h.authLength.toNat := hauth
    simp only [withVerifier, verifier, List.length_append, ← hauth, Nat.add_sub_cancel,
      List.drop_left]
  | _ => rfl

end Pdu

/-! ## What a body is read from -/

section Revise

variable {data data' : List UInt8} {h : Header}

/-- The reader of a body keeps the verifier that it is given, and looks at no other byte of it. -/
def PassesAuth {α : Type} (set : List UInt8 → α → α)
    (p : Header → List UInt8 → Body.Parse α) : Prop :=
  ∀ h auth auth', p h auth' = set auth' <$> p h auth

theorem Proposal.passesAuth_parse :
    PassesAuth (fun auth p => { p with auth }) Proposal.parse := by
  intro h auth auth'
  simp only [Proposal.parse, map_bind, map_pure]

theorem Acknowledgement.passesAuth_parse :
    PassesAuth (fun auth a => { a with auth }) Acknowledgement.parse := by
  intro h auth auth'
  simp only [Acknowledgement.parse, map_bind]
  refine bind_congr fun _ => bind_congr fun _ => bind_congr fun _ => bind_congr fun _ =>
    bind_congr fun _ => bind_congr fun bs => ?_
  cases Acknowledgement.addressOf? bs with
  | none => rfl
  | some address => simp only [map_bind, map_pure]

theorem Refusal.passesAuth_parse : PassesAuth (fun _ r => r) fun h _ => Refusal.parse h :=
  fun _ _ _ => (id_map _).symm

theorem Request.passesAuth_parse :
    PassesAuth (fun auth r => { r with auth }) Request.parse := by
  intro h auth auth'
  cases hobject : h.flags.hasObject <;>
    simp only [Request.parse, hobject, if_true, Bool.false_eq_true, if_false, map_bind, map_pure]

theorem Response.passesAuth_parse :
    PassesAuth (fun auth r => { r with auth }) Response.parse := by
  intro h auth auth'
  simp only [Response.parse, map_bind, map_pure]

theorem Fault.passesAuth_parse : PassesAuth (fun auth f => { f with auth }) Fault.parse := by
  intro h auth auth'
  simp only [Fault.parse, map_bind, map_pure]

/-- Bytes of which the header and the body are the same, up to the announced verifier. -/
structure SameBody (data data' : List UInt8) : Prop where
  within : Header.fragmentEnd data ≤ data.length
  within' : Header.fragmentEnd data ≤ data'.length
  lengths : Header.size + Header.verifierLength data ≤ Header.fragmentEnd data
  same : data'.take (Header.bodyEnd data) = data.take (Header.bodyEnd data)

theorem SameBody.size_le (hsame : SameBody data data') : Header.size ≤ Header.bodyEnd data :=
  Nat.le_sub_of_add_le hsame.lengths

theorem SameBody.parse_eq (hsame : SameBody data data') :
    Header.parse data' = Header.parse data := by
  have hsize := hsame.size_le
  obtain ⟨hwithin, hwithin', hlengths, hsame⟩ := hsame
  have htake : data'.take Header.size = data.take Header.size := by
    have hsize := congrArg (List.take Header.size) hsame
    rwa [List.take_take, List.take_take, Nat.min_eq_left (by omega)] at hsize
  exact Header.parse_congr htake (by omega) (by omega) hwithin hwithin'

/-- The bytes at the end of the fragment that are announced as verifier. -/
def Header.verifierOf (data data' : List UInt8) : List UInt8 :=
  (data'.take (fragmentEnd data)).drop (bodyEnd data)

theorem Body.verifier_of_parse (hparse : Header.parse data = .ok h) :
    Body.verifier h data' = Header.verifierOf data data' := by
  obtain ⟨hfragment, hauth⟩ := Header.lengths_of_parse hparse
  rw [Body.verifier, hfragment, hauth]
  rfl

theorem Body.run_map {α β : Type} (k : α → β) (p : Body.Parse α) (h : Header) (data : List UInt8) :
    Body.run (k <$> p) h data = (Body.run p h data).map k := by
  rw [map_eq_pure_bind]
  change ((p (Body.start h data) >>= fun x => pure (k x.1, x.2)) >>= fun x => pure x.1) =
    (p (Body.start h data) >>= fun x => pure x.1).map k
  cases p (Body.start h data) <;> rfl

theorem SameBody.unit_eq {α : Type} {set : List UInt8 → α → α}
    {p : Header → List UInt8 → Body.Parse α} (hsame : SameBody data data') (hp : PassesAuth set p)
    (kinds : List PacketKind) :
    (Header.expect kinds data' >>= fun h => Body.run (p h (Body.verifier h data')) h data') =
      (Header.expect kinds data >>= fun h => Body.run (p h (Body.verifier h data)) h data).map
        (set (Header.verifierOf data data')) := by
  unfold Header.expect
  rw [hsame.parse_eq]
  cases hparse : Header.parse data with
  | error e => rfl
  | ok h =>
    have hstart : Body.start h data' = Body.start h data := by
      obtain ⟨hfragment, hauth⟩ := Header.lengths_of_parse hparse
      have hbody : h.fragmentLength.toNat - h.authLength.toNat = Header.bodyEnd data := by
        rw [hfragment, hauth, Header.bodyEnd]
      unfold Body.start
      rw [hbody, hsame.same]
    rw [ok_bind]
    cases hkind : kinds.contains h.kind with
    | false => rfl
    | true =>
      change Body.run (p h (Body.verifier h data')) h data' =
        (Body.run (p h (Body.verifier h data)) h data).map _
      rw [Body.verifier_of_parse hparse, hp h (Body.verifier h data), Body.run_map, Body.run,
        Body.run, hstart]

/-- A raw body up to its verifier. -/
theorem SameBody.raw_eq (hsame : SameBody data data') (hparse : Header.parse data = .ok h) :
    (data'.take h.fragmentLength.toNat).drop Header.size =
      ((data.take h.fragmentLength.toNat).drop Header.size).take
        (((data.take h.fragmentLength.toNat).drop Header.size).length - h.authLength.toNat) ++
        Header.verifierOf data data' := by
  obtain ⟨hfragment, hauth⟩ := Header.lengths_of_parse hparse
  have hsize := hsame.size_le
  have hbody := Header.bodyEnd_le data
  obtain ⟨hwithin, hwithin', -, hsame⟩ := hsame
  rw [hfragment, hauth]
  have hfront : (data'.take (Header.bodyEnd data)).length = Header.bodyEnd data :=
    List.length_take_of_le (by omega)
  have hraw : ((data.take (Header.fragmentEnd data)).drop Header.size).length -
      Header.verifierLength data = Header.bodyEnd data - Header.size := by
    rw [List.length_drop, List.length_take_of_le hwithin, Nat.sub_right_comm, Header.bodyEnd]
  have hsplit : data'.take (Header.fragmentEnd data) =
      data'.take (Header.bodyEnd data) ++ Header.verifierOf data data' := by
    have happend := List.take_append_drop (Header.bodyEnd data)
      (data'.take (Header.fragmentEnd data))
    rw [List.take_take, Nat.min_eq_left hbody] at happend
    exact happend.symm
  rw [hsplit, List.drop_append_of_le_length (by omega), hsame, hraw, List.drop_take, List.drop_take,
    List.take_take, Nat.min_eq_left (by omega)]

/-- A verifier goes nowhere but into its field. -/
theorem SameBody.decode_eq (hsame : SameBody data data') :
    Pdu.decode data' =
      (Pdu.decode data).map (Pdu.withVerifier (Header.verifierOf data data')) := by
  have hunit : ∀ {α : Type} {x y : Except Error α} {set : List UInt8 → α → α} (mk : α → Pdu),
      (∀ auth a, (mk a).withVerifier auth = mk (set auth a)) →
      x = y.map (set (Header.verifierOf data data')) →
      (do return mk (← x)) =
        (do return mk (← y) : Except Error Pdu).map
          (Pdu.withVerifier (Header.verifierOf data data')) := by
    rintro α _ y set mk hmk rfl
    cases y with
    | error e => rfl
    | ok a => exact congrArg Except.ok (hmk _ a).symm
  unfold Pdu.decode
  rw [hsame.parse_eq]
  cases hparse : Header.parse data with
  | error e => rfl
  | ok h =>
    rw [ok_bind, ok_bind]
    cases h.kind with
    | bind => exact hunit Pdu.bind (fun _ _ => rfl) (hsame.unit_eq Proposal.passesAuth_parse _)
    | alterContext =>
      exact hunit Pdu.alterContext (fun _ _ => rfl) (hsame.unit_eq Proposal.passesAuth_parse _)
    | bindAck =>
      exact hunit Pdu.bindAck (fun _ _ => rfl) (hsame.unit_eq Acknowledgement.passesAuth_parse _)
    | alterContextResponse =>
      exact hunit Pdu.alterContextResponse (fun _ _ => rfl)
        (hsame.unit_eq Acknowledgement.passesAuth_parse _)
    | bindNak => exact hunit Pdu.bindNak (fun _ _ => rfl) (hsame.unit_eq Refusal.passesAuth_parse _)
    | request => exact hunit Pdu.request (fun _ _ => rfl) (hsame.unit_eq Request.passesAuth_parse _)
    | response =>
      exact hunit Pdu.response (fun _ _ => rfl) (hsame.unit_eq Response.passesAuth_parse _)
    | fault => exact hunit Pdu.fault (fun _ _ => rfl) (hsame.unit_eq Fault.passesAuth_parse _)
    | auth3 | shutdown | cancelRequest | orphaned =>
      exact congrArg (fun bs => Except.ok (Pdu.other h bs)) (hsame.raw_eq hparse)

end Revise

/-! ## Units -/

section Units

variable {data : List UInt8} {h : Header}

theorem SameBody.refl (hparse : Header.parse data = .ok h) : SameBody data data :=
  have hbounds := Header.bounds_of_parse hparse
  ⟨hbounds.1, hbounds.1, hbounds.2, rfl⟩

/-- What is decoded has the verifier at the end of its fragment. -/
theorem Pdu.verifier_of_decode {u : Pdu} (hu : decode data = .ok u)
    (hrefusal : ∀ r, u ≠ .bindNak r) :
    u.verifier.length = Header.verifierLength data ∧ u.verifier = Header.verifierOf data data := by
  have hparse := (parse_of_decode hu).1
  obtain ⟨hwithin, hlengths⟩ := Header.bounds_of_parse hparse
  have hself := (SameBody.refl hparse).decode_eq
  rw [hu] at hself
  have hsame : u = u.withVerifier (Header.verifierOf data data) := Except.ok.inj hself
  have hlength : (Header.verifierOf data data).length = Header.verifierLength data := by
    rw [Header.verifierOf, List.length_drop, List.length_take_of_le hwithin, Header.bodyEnd]
    omega
  have hauth := (Header.lengths_of_parse hparse).2
  have hverifier : u.verifier = Header.verifierOf data data := by
    rw [hsame]
    exact verifier_withVerifier (hlength.trans hauth.symm) hrefusal
  exact ⟨by rw [hverifier, hlength], hverifier⟩

/-- What is behind the fragment does not matter. -/
theorem Pdu.decode_take (hsize : Header.size ≤ Header.fragmentEnd data)
    (hwithin : Header.fragmentEnd data ≤ data.length) :
    decode data = decode (data.take (Header.fragmentEnd data)) := by
  have hfragment : (data.take (Header.fragmentEnd data)).length = Header.fragmentEnd data :=
    List.length_take_of_le hwithin
  have htake : (data.take (Header.fragmentEnd data)).take Header.size = data.take Header.size := by
    rw [List.take_take, Nat.min_eq_left hsize]
  have hparse : Header.parse (data.take (Header.fragmentEnd data)) = Header.parse data :=
    Header.parse_congr htake (by omega) (by omega) hwithin (by omega)
  cases hheader : Header.parse data with
  | error e =>
    rw [hheader] at hparse
    unfold decode
    rw [hheader, hparse]
    rfl
  | ok h =>
    have hsame : SameBody data (data.take (Header.fragmentEnd data)) := by
      refine ⟨hwithin, Nat.le_of_eq hfragment.symm, (Header.bounds_of_parse hheader).2, ?_⟩
      rw [List.take_take, Nat.min_eq_left (Header.bodyEnd_le data)]
    have hverifier : Header.verifierOf data (data.take (Header.fragmentEnd data)) =
        Header.verifierOf data data := by
      rw [Header.verifierOf, List.take_take, Nat.min_self]
      rfl
    rw [hsame.decode_eq, hverifier]
    exact (SameBody.refl hheader).decode_eq

/-- Other bytes in the place of the verifier. -/
theorem Pdu.decode_replace {auth : List UInt8} (rest : List UInt8)
    (hauth : auth.length = Header.verifierLength data)
    (hlengths : Header.size + Header.verifierLength data ≤ Header.fragmentEnd data)
    (hwithin : Header.fragmentEnd data ≤ data.length) :
    decode (data.take (Header.bodyEnd data) ++ auth ++ rest) =
      (decode data).map (withVerifier auth) := by
  have hbody : Header.bodyEnd data + auth.length = Header.fragmentEnd data := by
    rw [hauth, Header.bodyEnd]
    omega
  have hfront : (data.take (Header.bodyEnd data)).length = Header.bodyEnd data :=
    List.length_take_of_le (by omega)
  have hfragment : (data.take (Header.bodyEnd data) ++ auth).length = Header.fragmentEnd data := by
    rw [List.length_append, hfront, hbody]
  have hsame : SameBody data (data.take (Header.bodyEnd data) ++ auth ++ rest) := by
    refine ⟨hwithin, ?_, hlengths, ?_⟩
    · rw [List.length_append, hfragment]
      exact Nat.le_add_right _ _
    · rw [List.append_assoc, List.take_left' hfront]
  have hverifier :
      Header.verifierOf data (data.take (Header.bodyEnd data) ++ auth ++ rest) = auth := by
    rw [Header.verifierOf, List.take_left' hfragment, List.drop_left' hfront]
  rw [hsame.decode_eq, hverifier]

end Units

/-- **Units are read within their fragment.** Where the fragment that is announced is there, its
bytes decide on the result, errors included; where it is not, there is no unit. Whatever the bytes
are, and whatever lengths they announce, reading them by index has a result, so that no access is
ever out of range. Other bytes in the place of the verifier make no other difference than to the
verifier, and a unit that was decoded has for its verifier the bytes at the end of its fragment, as
many as it announces. -/
theorem decode_within_fragment (data : List UInt8) :
    (Header.size ≤ data.length → Header.size ≤ Header.fragmentEnd data →
      Header.fragmentEnd data ≤ data.length →
      Pdu.decode data = Pdu.decode (data.take (Header.fragmentEnd data))) ∧
    (Header.fragmentEnd data < Header.size ∨ data.length < Header.fragmentEnd data →
      ∀ u, Pdu.decode data ≠ .ok u) ∧
    ((Slices.header data).run = some (Header.parse data) ∧
      (Slices.unit [.bind, .alterContext] Slices.proposal data).run =
        some (Proposal.decode data) ∧
      (Slices.unit [.bindAck, .alterContextResponse] Slices.acknowledgement data).run =
        some (Acknowledgement.decode data) ∧
      (Slices.unit [.bindNak] (fun h _ => Slices.refusal h) data).run =
        some (Refusal.decode data) ∧
      (Slices.unit [.request] Slices.request data).run = some (Request.decode data) ∧
      (Slices.unit [.response] Slices.response data).run = some (Response.decode data) ∧
      (Slices.unit [.fault] Slices.fault data).run = some (Fault.decode data) ∧
      (Slices.decode data).run = some (Pdu.decode data)) ∧
    (∀ auth rest, auth.length = Header.verifierLength data →
      Header.size + Header.verifierLength data ≤ Header.fragmentEnd data →
      Header.fragmentEnd data ≤ data.length →
      Pdu.decode (data.take (Header.bodyEnd data) ++ auth ++ rest) =
        (Pdu.decode data).map (Pdu.withVerifier auth)) ∧
    ∀ u, Pdu.decode data = .ok u → (∀ r, u ≠ .bindNak r) →
      u.verifier.length = Header.verifierLength data ∧
      u.verifier = (data.take (Header.fragmentEnd data)).drop (Header.bodyEnd data) := by
  refine ⟨fun _ hsize hwithin => Pdu.decode_take hsize hwithin, fun hbounds u hu => ?_, ?_,
    fun auth rest hauth hlengths hwithin => Pdu.decode_replace rest hauth hlengths hwithin,
    fun u hu hrefusal => Pdu.verifier_of_decode hu hrefusal⟩
  · obtain ⟨hwithin, hlengths⟩ := Header.bounds_of_parse (Pdu.parse_of_decode hu).1
    omega
  · have hunits := fun {α : Type} {scan : Header → List UInt8 → Slices.Scan α}
      {p : Header → List UInt8 → Body.Parse α}
      (hp : ∀ h auth, Slices.Agrees (scan h auth) (p h auth)) kinds =>
        congrArg ExceptT.run (Slices.unit_eq hp kinds data)
    exact ⟨congrArg ExceptT.run (Slices.header_eq data), hunits Slices.agrees_proposal _,
      hunits Slices.agrees_acknowledgement _, hunits (fun h _ => Slices.agrees_refusal h) _,
      hunits Slices.agrees_request _, hunits Slices.agrees_response _,
      hunits Slices.agrees_fault _, congrArg ExceptT.run (Slices.decode_eq data)⟩

/-- A request with a verifier, and one byte too many. -/
def sampleSigned : List UInt8 :=
  [5, 0, 0, 3, 0x10, 0, 0, 0, 28, 0, 2, 0, 1, 0, 0, 0, 2, 0, 0, 0, 0, 0, 1, 0, 0xAA, 0xBB,
    0xC1, 0xC2, 0xFF]

theorem decode_within_fragment_sampleSigned :
    ∃ r, Pdu.decode sampleSigned = .ok (.request r) ∧ r.stub = [0xAA, 0xBB] ∧
      r.auth = [0xC1, 0xC2] ∧
      Pdu.decode sampleSigned = Pdu.decode (sampleSigned.take 28) ∧
      (Slices.decode sampleSigned).run = some (.ok (.request r)) ∧
      Pdu.decode (sampleSigned.take 26 ++ [7, 8] ++ []) = .ok (.request { r with auth := [7, 8] }) ∧
      ∀ u, Pdu.decode (sampleSigned.take 27) ≠ .ok u := by
  obtain ⟨htake, -, hslices, hreplace, hverifier⟩ := decode_within_fragment sampleSigned
  obtain ⟨-, hshort, -⟩ := decode_within_fragment (sampleSigned.take 27)
  have hdecode : Pdu.decode sampleSigned = .ok (.request
      ⟨⟨5, 0, .request, ⟨3⟩, .standard, 28, 2, 1⟩, 2, 0, 1, none, [0xAA, 0xBB], [0xC1, 0xC2]⟩) :=
    rfl
  refine ⟨_, hdecode, rfl, ?_, ?_, ?_, ?_, ?_⟩
  · exact (hverifier _ hdecode nofun).2
  · exact htake (by decide) (by decide) (by decide)
  · rw [hslices.2.2.2.2.2.2.2, hdecode]
  · have hother := hreplace [7, 8] [] (by decide) (by decide) (by decide)
    rw [hdecode] at hother
    exact hother
  · exact hshort (.inr (by decide))

end RemoteCall
