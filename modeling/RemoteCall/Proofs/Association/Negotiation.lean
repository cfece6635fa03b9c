import RemoteCall.Association.Negotiation

/-! The answers to a proposal. Each context is answered at its own position, by itself, and there
are four things that its answer can say (`Negotiated`). Which of them it is depends on the interface
of the service, on the transfer encodings of the client in the order of the client, and on which of
them the service speaks, in whatever order (`answers_of_proposal`). -/

namespace RemoteCall

/-! ## Feature negotiation -/

theorem Uuid.take_encode (o : ByteOrder) (u : Uuid) :
    (u.encode o).take 8 = o.word32 u.timeLow ++ (o.word16 u.timeMid ++ o.word16 u.timeHigh) := by
  have hlength :
      (o.word32 u.timeLow ++ (o.word16 u.timeMid ++ o.word16 u.timeHigh)).length = 8 := by
    simp
  rw [encode, List.append_assoc (o.word32 u.timeLow), ← hlength, List.take_left]

/-- The first eight bytes are the first three fields. -/
theorem Uuid.take_encode_eq_iff {o : ByteOrder} {u v : Uuid} :
    (u.encode o).take 8 = (v.encode o).take 8 ↔
      u.timeLow = v.timeLow ∧ u.timeMid = v.timeMid ∧ u.timeHigh = v.timeHigh := by
  constructor
  · intro h
    rw [take_encode, take_encode] at h
    obtain ⟨hlow, h⟩ := List.append_inj h (by simp)
    obtain ⟨hmid, hhigh⟩ := List.append_inj h (by simp)
    refine ⟨?_, ?_, ?_⟩
    · simpa using congrArg o.read32 hlow
    · simpa using congrArg o.read16 hmid
    · simpa using congrArg o.read16 hhigh
  · rintro ⟨hlow, hmid, hhigh⟩
    rw [take_encode, take_encode, hlow, hmid, hhigh]

/-- The identifier begins as that of feature negotiation does; the features follow. -/
def SyntaxId.HasFeaturePrefix (t : SyntaxId) : Prop :=
  (t.uuid.encode .big).take 8 = (featureNegotiation.uuid.encode .big).take 8

theorem SyntaxId.isFeatureNegotiation_iff {t : SyntaxId} :
    t.isFeatureNegotiation = true ↔ t.HasFeaturePrefix := by
  unfold isFeatureNegotiation HasFeaturePrefix
  rw [Uuid.take_encode_eq_iff, Bool.and_eq_true, Bool.and_eq_true, beq_iff_eq, beq_iff_eq,
    beq_iff_eq, and_assoc]

/-! ## One context -/

/-- There is a service, with the interface of the context in the same version. -/
def Context.IsOf (c : Context) (service : Option Service) (s : Service) : Prop :=
  service = some s ∧ s.interface.id = c.abstractSyntax

/-- The service speaks this one of the client's transfer encodings, and none before it. -/
def Service.SpeaksFirst (s : Service) (offered : List SyntaxId) (t : SyntaxId) : Prop :=
  ∃ before after, offered = before ++ t :: after ∧ t ∈ s.transferSyntaxes ∧
    ∀ u ∈ before, u ∉ s.transferSyntaxes

def Service.SpeaksNone (s : Service) (offered : List SyntaxId) : Prop :=
  ∀ u ∈ offered, u ∉ s.transferSyntaxes

/-- What the answer to a context can be. -/
inductive Negotiated (service : Option Service) (c : Context) : ContextAnswer → Prop
  | accepted {s : Service} {t : SyntaxId} (hs : c.IsOf service s)
      (ht : s.SpeaksFirst c.transferSyntaxes t) : Negotiated service c (.accept t)
  | features {s : Service} (hs : c.IsOf service s) (hnone : s.SpeaksNone c.transferSyntaxes)
      (hfeatures : ∃ u ∈ c.transferSyntaxes, u.HasFeaturePrefix) :
      Negotiated service c (.reject .negotiateAck .abstractSyntaxNotSupported)
  | unspoken {s : Service} (hs : c.IsOf service s) (hnone : s.SpeaksNone c.transferSyntaxes)
      (hfeatures : ¬ ∃ u ∈ c.transferSyntaxes, u.HasFeaturePrefix) :
      Negotiated service c (.reject .providerRejection .proposedTransferSyntaxesNotSupported)
  | foreign (hforeign : ¬ ∃ s, c.IsOf service s) :
      Negotiated service c (.reject .providerRejection .abstractSyntaxNotSupported)

section Negotiated

variable {service : Option Service} {c : Context} {s s' : Service} {t t' : SyntaxId}

theorem Service.speaksFirst_iff :
    s.SpeaksFirst c.transferSyntaxes t ↔
      c.transferSyntaxes.find? s.transferSyntaxes.contains = some t := by
  rw [List.find?_eq_some_iff_append]
  simp only [SpeaksFirst, List.contains_eq_mem, decide_eq_true_eq, Bool.not_eq_true',
    decide_eq_false_iff_not]
  constructor
  · rintro ⟨before, after, hoffered, ht, hbefore⟩
    exact ⟨ht, before, after, hoffered, hbefore⟩
  · rintro ⟨ht, before, after, hoffered, hbefore⟩
    exact ⟨before, after, hoffered, ht, hbefore⟩

theorem Service.speaksNone_iff :
    s.SpeaksNone c.transferSyntaxes ↔
      c.transferSyntaxes.find? s.transferSyntaxes.contains = none := by
  simp [SpeaksNone, List.find?_eq_none]

theorem Context.exists_featurePrefix_iff :
    (∃ u ∈ c.transferSyntaxes, u.HasFeaturePrefix) ↔
      c.transferSyntaxes.any (·.isFeatureNegotiation) = true := by
  simp only [List.any_eq_true, SyntaxId.isFeatureNegotiation_iff]

/-- With a service for the context, its transfer encodings decide. -/
theorem Context.IsOf.negotiate_eq (hs : c.IsOf service s) :
    ContextAnswer.negotiate service c =
      match c.transferSyntaxes.find? s.transferSyntaxes.contains with
      | some t => .accept t
      | none =>
        if c.transferSyntaxes.any (·.isFeatureNegotiation) then
          .reject .negotiateAck .abstractSyntaxNotSupported
        else .reject .providerRejection .proposedTransferSyntaxesNotSupported := by
  obtain ⟨rfl, hid⟩ := hs
  unfold ContextAnswer.negotiate
  dsimp only
  rw [hid, bne_self_eq_false]
  exact if_neg Bool.false_ne_true

/-- Without one, there is nothing to decide. -/
theorem Context.negotiate_of_foreign (hforeign : ¬ ∃ s, c.IsOf service s) :
    ContextAnswer.negotiate service c =
      .reject .providerRejection .abstractSyntaxNotSupported := by
  cases service with
  | none => rfl
  | some s =>
    have hid : s.interface.id ≠ c.abstractSyntax := fun hid => hforeign ⟨s, rfl, hid⟩
    unfold ContextAnswer.negotiate
    dsimp only
    rw [if_pos (bne_iff_ne.mpr hid)]

/-- A context has the answer that its case asks for. -/
theorem negotiate_eq_iff {x : ContextAnswer} :
    ContextAnswer.negotiate service c = x ↔ Negotiated service c x := by
  constructor
  · rintro rfl
    by_cases hservice : ∃ s, c.IsOf service s
    · obtain ⟨s, hs⟩ := hservice
      rw [hs.negotiate_eq]
      cases hfind : c.transferSyntaxes.find? s.transferSyntaxes.contains with
      | some t => exact .accepted hs (Service.speaksFirst_iff.mpr hfind)
      | none =>
        have hnone := Service.speaksNone_iff.mpr hfind
        dsimp only
        split
        · rename_i hany
          exact .features hs hnone (Context.exists_featurePrefix_iff.mpr hany)
        · rename_i hany
          exact .unspoken hs hnone (mt Context.exists_featurePrefix_iff.mp hany)
    · rw [Context.negotiate_of_foreign hservice]
      exact .foreign hservice
  · intro h
    cases h with
    | accepted hs ht => rw [hs.negotiate_eq, Service.speaksFirst_iff.mp ht]
    | features hs hnone hfeatures =>
      rw [hs.negotiate_eq, Service.speaksNone_iff.mp hnone]
      exact if_pos (Context.exists_featurePrefix_iff.mp hfeatures)
    | unspoken hs hnone hfeatures =>
      rw [hs.negotiate_eq, Service.speaksNone_iff.mp hnone]
      exact if_neg (mt Context.exists_featurePrefix_iff.mpr hfeatures)
    | foreign hforeign => exact Context.negotiate_of_foreign hforeign

/-- A result with that code, for the reason with that code. -/
def ContextAnswer.Says (x : ContextAnswer) (result : NegotiationResult)
    (reason : RejectionReason) : Prop :=
  x.result = result.code ∧ x.reason = reason.code

/-- The answer says for the context what is the case. -/
structure ContextAnswer.Answers (x : ContextAnswer) (service : Option Service) (c : Context) :
    Prop where
  accepted (t : SyntaxId) :
    x.result = NegotiationResult.acceptance.code ∧ x.transferSyntax = t ↔
      ∃ s, c.IsOf service s ∧ s.SpeaksFirst c.transferSyntaxes t
  features :
    x.Says .negotiateAck .abstractSyntaxNotSupported ↔
      ∃ s, c.IsOf service s ∧ s.SpeaksNone c.transferSyntaxes ∧
        ∃ u ∈ c.transferSyntaxes, u.HasFeaturePrefix
  unspoken :
    x.Says .providerRejection .proposedTransferSyntaxesNotSupported ↔
      ∃ s, c.IsOf service s ∧ s.SpeaksNone c.transferSyntaxes ∧
        ¬ ∃ u ∈ c.transferSyntaxes, u.HasFeaturePrefix
  foreign :
    x.Says .providerRejection .abstractSyntaxNotSupported ↔ ¬ ∃ s, c.IsOf service s
  nil_of_not_accepted :
    x.result = NegotiationResult.acceptance.code ∨ x.transferSyntax = .nil

theorem Negotiated.answers {x : ContextAnswer} (h : Negotiated service c x) :
    x.Answers service c := by
  have hunique : ∀ {y}, Negotiated service c y → x = y := fun hy =>
    (negotiate_eq_iff.mpr h).symm.trans (negotiate_eq_iff.mpr hy)
  refine ⟨fun t => ⟨?_, ?_⟩, ⟨?_, ?_⟩, ⟨?_, ?_⟩, ⟨?_, ?_⟩, ?_⟩
  · rintro ⟨hresult, rfl⟩
    cases h with
    | accepted hs ht => exact ⟨_, hs, ht⟩
    | _ => cases hresult
  · rintro ⟨s, hs, ht⟩
    cases hunique (.accepted hs ht)
    exact ⟨rfl, rfl⟩
  · rintro ⟨hresult, hreason⟩
    cases h with
    | features hs hnone hfeatures => exact ⟨_, hs, hnone, hfeatures⟩
    | _ => cases hresult
  · rintro ⟨s, hs, hnone, hfeatures⟩
    cases hunique (.features hs hnone hfeatures)
    exact ⟨rfl, rfl⟩
  · rintro ⟨hresult, hreason⟩
    cases h with
    | unspoken hs hnone hfeatures => exact ⟨_, hs, hnone, hfeatures⟩
    | foreign => cases hreason
    | _ => cases hresult
  · rintro ⟨s, hs, hnone, hfeatures⟩
    cases hunique (.unspoken hs hnone hfeatures)
    exact ⟨rfl, rfl⟩
  · rintro ⟨hresult, hreason⟩
    cases h with
    | foreign hforeign => exact hforeign
    | unspoken => cases hreason
    | _ => cases hresult
  · intro hforeign
    cases hunique (.foreign hforeign)
    exact ⟨rfl, rfl⟩
  · cases h with
    | accepted => exact .inl rfl
    | _ => exact .inr rfl

/-- Only which transfer encodings a service speaks matters, not their order. -/
theorem negotiate_reorder {ts : List SyntaxId} (h : ts.Perm s.transferSyntaxes) (c : Context) :
    ContextAnswer.negotiate (some { s with transferSyntaxes := ts }) c =
      ContextAnswer.negotiate (some s) c := by
  have hcontains : ts.contains = s.transferSyntaxes.contains := by
    funext t
    rw [Bool.eq_iff_iff, List.contains_iff_mem, List.contains_iff_mem]
    exact h.mem_iff
  unfold ContextAnswer.negotiate
  dsimp only
  rw [hcontains]

end Negotiated

/-! ## All contexts -/

/-- The answers to a bind or to an alter_context, within whatever group. -/
def Acknowledgement.RepliesTo (a : Acknowledgement) (service : Option Service) (p : Proposal) :
    Prop :=
  (∃ g, a = (ofBind g service p).1) ∨ ∃ group, a = ofAlterContext service p group

/-- **Each context has its answer.** There are as many answers as contexts, and each of them depends
on the service and on the context at its position only. It accepts the first of the client's
transfer encodings that the service speaks, if the context has the interface of the service; it
acknowledges feature negotiation, or rejects all transfer encodings, if the service speaks none of
them; and it rejects the interface otherwise. What is not accepted has no transfer encoding. The
order in which the service has its own transfer encodings makes no difference to an
acknowledgement. -/
theorem answers_of_proposal (service : Option Service) (p : Proposal) :
    (∀ a : Acknowledgement, a.RepliesTo service p → a.answers.length = p.contexts.length ∧
      (∀ i : Nat, a.answers[i]? = p.contexts[i]?.map (ContextAnswer.negotiate service)) ∧
      ∀ (i : Nat) (c : Context) (x : ContextAnswer), p.contexts[i]? = some c →
        a.answers[i]? = some x → x.Answers service c) ∧
    ∀ (s : Service) (ts : List SyntaxId), service = some s → ts.Perm s.transferSyntaxes →
      (∀ g, Acknowledgement.ofBind g (some { s with transferSyntaxes := ts }) p =
        Acknowledgement.ofBind g service p) ∧
      ∀ group, Acknowledgement.ofAlterContext (some { s with transferSyntaxes := ts }) p group =
        Acknowledgement.ofAlterContext service p group := by
  refine ⟨fun a ha => ?_, ?_⟩
  · have hanswers : a.answers = p.contexts.map (ContextAnswer.negotiate service) := by
      obtain ⟨g, rfl⟩ | ⟨group, rfl⟩ := ha <;> rfl
    rw [hanswers]
    refine ⟨List.length_map _, fun i => List.getElem?_map .., ?_⟩
    intro i c x hc hx
    rw [List.getElem?_map, hc] at hx
    cases hx
    exact (negotiate_eq_iff.mp rfl).answers
  · rintro s ts rfl hperm
    have hanswering : ∀ kind group address,
        Acknowledgement.answering kind (some { s with transferSyntaxes := ts }) p group address =
          Acknowledgement.answering kind (some s) p group address := by
      intro kind group address
      unfold Acknowledgement.answering
      rw [funext (negotiate_reorder hperm)]
    refine ⟨fun g => ?_, fun group => hanswering ..⟩
    unfold Acknowledgement.ofBind
    dsimp only
    rw [hanswering]

/-- A service that speaks both versions of one transfer encoding. -/
def sampleSpeaker : Service := ⟨.serverService, "srvsvc", [.ndr2, .ndr1], .empty⟩

/-- Another interface, a choice of encodings, none that is known, and features. -/
def sampleContexts : List Context :=
  [⟨0, Interface.workstationService.id, [.ndr2]⟩,
    ⟨1, Interface.serverService.id, [.nil, .ndr1, .ndr2, .ndr1]⟩,
    ⟨2, Interface.serverService.id, [.nil]⟩,
    ⟨3, Interface.serverService.id, [⟨⟨0x6cb71c2c, 0x9812, 0x4540, 0x0100000000000000⟩, 1⟩]⟩]

theorem answers_of_proposal_sampleContexts :
    ∃ a,
      Acknowledgement.ofAlterContext (some sampleSpeaker) (.alterContext 7 sampleContexts) 5 = a ∧
      a.answers.length = 4 ∧ a.answers[1]? = some (.accept .ndr1) ∧
      a.answers[2]? = some (.reject .providerRejection .proposedTransferSyntaxesNotSupported) ∧
      ContextAnswer.Answers (.reject .negotiateAck .abstractSyntaxNotSupported)
        (some sampleSpeaker) (sampleContexts[3]) ∧
      Acknowledgement.ofAlterContext
        (some { sampleSpeaker with transferSyntaxes := [.ndr1, .ndr2] })
        (.alterContext 7 sampleContexts) 5 = a := by
  obtain ⟨hanswers, hreorder⟩ :=
    answers_of_proposal (some sampleSpeaker) (.alterContext 7 sampleContexts)
  obtain ⟨hlength, hindex, hall⟩ := hanswers _ (.inr ⟨5, rfl⟩)
  have hfeatures := hall 3 _ (.reject .negotiateAck .abstractSyntaxNotSupported) rfl (by decide)
  exact ⟨_, rfl, hlength, (hindex 1).trans (by decide), (hindex 2).trans (by decide), hfeatures,
    (hreorder sampleSpeaker [.ndr1, .ndr2] rfl (.swap ..)).2 5⟩

end RemoteCall
