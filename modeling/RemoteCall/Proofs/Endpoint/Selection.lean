import Mathlib.Data.List.Nodup
import RemoteCall.Proofs.Association.Negotiation
import RemoteCall.Proofs.Endpoint.Contexts

/-! The service that a bind selects. It is looked for by UUID, in the first context whose UUID is
registered (`Registry.forProposal?_eq_iff`), but contexts are negotiated by UUID and version. So the
first interface that is implemented has no say if another version of a registered interface stands
before it, unless both have the same UUID (`Registry.forProposal?_implements`). -/

namespace RemoteCall

/-! ## First contexts -/

/-- The first context with a property. -/
def First (P : Context → Prop) (cs : List Context) (c : Context) : Prop :=
  ∃ before after, cs = before ++ c :: after ∧ P c ∧ ∀ b ∈ before, ¬P b

namespace First

variable {P : Context → Prop} {cs : List Context} {c c' : Context}

theorem holds (h : First P cs c) : P c := by
  obtain ⟨_, _, -, hc, -⟩ := h
  exact hc

theorem mem (h : First P cs c) : c ∈ cs := by
  obtain ⟨before, after, rfl, -⟩ := h
  exact List.mem_append_right before List.mem_cons_self

theorem unique (h : First P cs c) (h' : First P cs c') : c = c' := by
  obtain ⟨before, after, hcs, hc, hbefore⟩ := h
  obtain ⟨before', after', hcs', hc', hbefore'⟩ := h'
  rw [hcs] at hcs'
  rcases List.append_eq_append_iff.mp hcs' with ⟨between, rfl, hrest⟩ | ⟨between, rfl, hrest⟩
  · cases between with
    | nil => exact (List.cons.inj hrest).1
    | cons b between =>
      obtain ⟨rfl, -⟩ := List.cons.inj hrest
      exact absurd hc (hbefore' c (List.mem_append_right before List.mem_cons_self))
  · cases between with
    | nil => exact (List.cons.inj hrest).1.symm
    | cons b between =>
      obtain ⟨rfl, -⟩ := List.cons.inj hrest
      exact absurd hc' (hbefore c' (List.mem_append_right before' List.mem_cons_self))

end First

/-! ## Services and contexts -/

/-- The service has the interface of the context, in whatever version. -/
def Service.Knows (s : Service) (c : Context) : Prop := s.interface.uuid = c.abstractSyntax.uuid

/-- The service has the interface of the context in the same version. -/
def Service.Implements (s : Service) (c : Context) : Prop := s.interface.id = c.abstractSyntax

theorem Service.Implements.knows {s : Service} {c : Context} (h : s.Implements c) : s.Knows c :=
  congrArg SyntaxId.uuid h

/-- Some service goes with the context. -/
def Met (GoesWith : Service → Context → Prop) (services : List Service) (c : Context) : Prop :=
  ∃ s ∈ services, GoesWith s c

/-- The service that goes with the first context that any service goes with. -/
inductive Selected (GoesWith : Service → Context → Prop) (services : List Service)
    (cs : List Context) : Option Service → Prop
  | some {c : Context} {s : Service} (hc : First (Met GoesWith services) cs c)
      (hs : s ∈ services) (hgoes : GoesWith s c) : Selected GoesWith services cs (some s)
  | none (hnone : ∀ c ∈ cs, ¬Met GoesWith services c) : Selected GoesWith services cs none

namespace Registry

/-! ## Registries -/

/-- No two services have the same UUID. -/
def Distinct (services : List Service) : Prop := (services.map (·.interface.uuid)).Nodup

theorem mem_insertService {s t : Service} {services : List Service}
    (h : t ∈ insertService s services) : t = s ∨ t ∈ services := by
  induction services with
  | nil => exact .inl (List.mem_singleton.mp h)
  | cons u services ih =>
    unfold insertService at h
    split at h
    · exact (List.mem_cons.mp h).imp_right (List.mem_cons_of_mem u)
    · rcases List.mem_cons.mp h with rfl | h
      · exact .inr List.mem_cons_self
      · exact (ih h).imp_right (List.mem_cons_of_mem u)

theorem Distinct.insertService {services : List Service} (h : Distinct services) (s : Service) :
    Distinct (insertService s services) := by
  induction services with
  | nil => exact List.nodup_singleton _
  | cons t services ih =>
    obtain ⟨ht, hrest⟩ := List.nodup_cons.mp h
    unfold Registry.insertService
    split
    · rename_i huuid
      refine List.nodup_cons.mpr ⟨?_, hrest⟩
      change s.interface.uuid ∉ _
      rwa [← huuid]
    · rename_i huuid
      refine List.nodup_cons.mpr ⟨fun hmem => ?_, ih hrest⟩
      obtain ⟨u, hu, hsame⟩ := List.mem_map.mp hmem
      rcases mem_insertService hu with rfl | hu
      · exact huuid hsame.symm
      · exact ht (hsame ▸ List.mem_map_of_mem hu)

theorem distinct_ofServices (services : List Service) : Distinct (ofServices services).services :=
  List.foldlRecOn (motive := fun r : Registry => Distinct r.services) services register
    List.nodup_nil fun _ h s _ => Distinct.insertService h s

variable {r : Registry} {p : Proposal} {s t : Service} {c : Context} {x : Option Service}

theorem Distinct.eq_of_uuid (h : Distinct r.services) (hs : s ∈ r.services) (ht : t ∈ r.services)
    (huuid : s.interface.uuid = t.interface.uuid) : s = t :=
  List.inj_on_of_nodup_map h hs ht huuid

theorem get?_eq_some_iff (h : Distinct r.services) :
    r.get? c.abstractSyntax.uuid = some s ↔ s ∈ r.services ∧ s.Knows c := by
  constructor
  · intro hget
    have huuid := List.find?_some hget
    exact ⟨List.mem_of_find?_eq_some hget, beq_iff_eq.mp huuid⟩
  · rintro ⟨hs, hknows⟩
    obtain ⟨t, ht⟩ : ∃ t, r.get? c.abstractSyntax.uuid = some t :=
      Option.isSome_iff_exists.mp (List.find?_isSome.mpr ⟨s, hs, beq_iff_eq.mpr hknows⟩)
    have hfound := List.find?_some ht
    have huuid : t.interface.uuid = s.interface.uuid := (beq_iff_eq.mp hfound).trans hknows.symm
    rw [ht, h.eq_of_uuid (List.mem_of_find?_eq_some ht) hs huuid]

theorem get?_eq_none_iff :
    r.get? c.abstractSyntax.uuid = none ↔ ¬Met Service.Knows r.services c := by
  simp [get?, Met, Service.Knows]

theorem forProposal?_eq_iff (h : Distinct r.services) :
    r.forProposal? p = x ↔ Selected Service.Knows r.services p.contexts x := by
  unfold forProposal?
  cases x with
  | none =>
    rw [List.findSome?_eq_none_iff]
    constructor
    · intro hnone
      exact .none fun c hc => get?_eq_none_iff.mp (hnone c hc)
    · rintro ⟨⟩
      rename_i hnone
      exact fun c hc => get?_eq_none_iff.mpr (hnone c hc)
  | some s =>
    rw [List.findSome?_eq_some_iff]
    constructor
    · rintro ⟨before, c, after, hcs, hget, hbefore⟩
      obtain ⟨hs, hknows⟩ := (get?_eq_some_iff h).mp hget
      exact .some ⟨before, after, hcs, ⟨s, hs, hknows⟩,
        fun b hb => get?_eq_none_iff.mp (hbefore b hb)⟩ hs hknows
    · rintro (⟨⟨before, after, hcs, -, hbefore⟩, hs, hknows⟩)
      exact ⟨before, _, after, hcs, (get?_eq_some_iff h).mpr ⟨hs, hknows⟩,
        fun b hb => get?_eq_none_iff.mpr (hbefore b hb)⟩

/-- What a bind selects is the service of the first interface that is implemented, if the bind knows
no interface, or if the first one that is known has the same UUID. -/
theorem forProposal?_implements (h : Distinct r.services) :
    Selected Service.Implements r.services p.contexts (r.forProposal? p) ↔
      (∀ c ∈ p.contexts, ¬Met Service.Knows r.services c) ∨
        ∃ c c', First (Met Service.Knows r.services) p.contexts c ∧
          First (Met Service.Implements r.services) p.contexts c' ∧
          c.abstractSyntax.uuid = c'.abstractSyntax.uuid := by
  have hselected := (forProposal?_eq_iff h (p := p)).mp rfl
  generalize r.forProposal? p = x at hselected
  cases hselected with
  | none hnone =>
    refine iff_of_true (.none fun c hc => ?_) (.inl hnone)
    rintro ⟨t, ht, himplements⟩
    exact hnone c hc ⟨t, ht, himplements.knows⟩
  | @some c s hc hs hknows =>
    constructor
    · rintro ⟨⟩
      rename_i c' hc' _ himplements
      exact .inr ⟨c, c', hc, hc', hknows.symm.trans himplements.knows⟩
    · rintro (hnone | ⟨c₁, c', hc₁, hc', huuid⟩)
      · exact absurd hc.holds (hnone c hc.mem)
      · obtain rfl := hc.unique hc₁
        obtain ⟨t, ht, himplements⟩ := hc'.holds
        have hsame : t.interface.uuid = s.interface.uuid :=
          himplements.knows.trans (huuid.symm.trans hknows.symm)
        obtain rfl := h.eq_of_uuid ht hs hsame
        exact .some hc' ht himplements

end Registry

namespace Endpoint

/-! ## Acceptance -/

variable {e : Endpoint} {g : GroupAllocator} {data : List UInt8} {p : Proposal}

/-- A context is accepted if its interface is that of the service, in the same version, and the
service speaks one of its transfer encodings. -/
theorem isAccepted_negotiate_iff {service : Option Service} {c : Context} :
    (ContextAnswer.negotiate service c).isAccepted = true ↔
      ∃ s, c.IsOf service s ∧ ¬s.SpeaksNone c.transferSyntaxes := by
  have hanswer : Negotiated service c (ContextAnswer.negotiate service c) :=
    negotiate_eq_iff.mp rfl
  generalize ContextAnswer.negotiate service c = x at hanswer
  cases hanswer with
  | @accepted s t hs ht =>
    obtain ⟨before, after, hoffered, hspoken, -⟩ := ht
    have hmem : t ∈ c.transferSyntaxes :=
      hoffered ▸ List.mem_append_right before List.mem_cons_self
    exact iff_of_true rfl ⟨s, hs, fun hnone => hnone t hmem hspoken⟩
  | @features s hs hnone | @unspoken s hs hnone =>
    refine iff_of_false Bool.false_ne_true ?_
    rintro ⟨s', hs', hspeaks⟩
    obtain rfl : s = s' := Option.some.inj (hs.1.symm.trans hs'.1)
    exact hspeaks hnone
  | foreign hforeign =>
    refine iff_of_false Bool.false_ne_true ?_
    rintro ⟨s, hs, -⟩
    exact hforeign ⟨s, hs⟩

theorem exists_accepted_iff :
    (∃ a ∈ (e.bindAck g p).answers, a.isAccepted = true) ↔
      ∃ s, e.boundService p = some s ∧
        ∃ c ∈ p.contexts, s.Implements c ∧ ¬s.SpeaksNone c.transferSyntaxes := by
  have hanswers : (e.bindAck g p).answers =
    p.contexts.map (ContextAnswer.negotiate (e.boundService p)) := rfl
  simp only [hanswers, List.mem_map, exists_exists_and_eq_and, isAccepted_negotiate_iff,
    Context.IsOf]
  constructor
  · rintro ⟨c, hc, s, ⟨hs, himplements⟩, hspeaks⟩
    exact ⟨s, hs, c, hc, himplements, hspeaks⟩
  · rintro ⟨s, hs, c, hc, himplements, hspeaks⟩
    exact ⟨c, hc, s, ⟨hs, himplements⟩, hspeaks⟩

end Endpoint

/-- **The first UUID that is registered selects the service of a bind, whatever its version.** No
context before it has such a UUID, and without one there is no service. This is the service of the
first interface that is implemented, in its version, if and only if no UUID is registered or the two
contexts have the same one. An endpoint that selects its service so accepts a context if and only if
one of them has the interface of this service, in its version, and an encoding that it speaks. So it
accepts one if the service is that of the first implemented interface, and speaks an encoding that
is offered for it. -/
theorem Registry.bind_selects (services : List Service) (p : Proposal) :
    let r := ofServices services
    (∀ x, r.forProposal? p = x ↔ Selected Service.Knows r.services p.contexts x) ∧
      (Selected Service.Implements r.services p.contexts (r.forProposal? p) ↔
        (∀ c ∈ p.contexts, ¬Met Service.Knows r.services c) ∨
          ∃ c c', First (Met Service.Knows r.services) p.contexts c ∧
            First (Met Service.Implements r.services) p.contexts c' ∧
            c.abstractSyntax.uuid = c'.abstractSyntax.uuid) ∧
      ∀ (e : Endpoint) (g : GroupAllocator) (data : List UInt8), e.source = .registry r →
        Pdu.decode data = .ok (.bind p) → p.header.major = Header.version →
        ∃ ack : Acknowledgement,
          (e.process g data).answers =
            (Action.reply (.bindAck ack)).perform (e.process g data).endpoint.maxTransmit ∧
          (e.process g data).endpoint.service = r.forProposal? p ∧
          ((∃ a ∈ ack.answers, a.isAccepted = true) ↔ ∃ s, r.forProposal? p = some s ∧
            ∃ c ∈ p.contexts, s.Implements c ∧ ¬s.SpeaksNone c.transferSyntaxes) ∧
          (Selected Service.Implements r.services p.contexts (r.forProposal? p) →
            ∀ c s, First (Met Service.Implements r.services) p.contexts c → s ∈ r.services →
              s.Implements c → ¬s.SpeaksNone c.transferSyntaxes →
              ∃ a ∈ ack.answers, a.isAccepted = true) := by
  intro r
  have hdistinct : Distinct r.services := distinct_ofServices services
  refine ⟨fun x => forProposal?_eq_iff hdistinct, forProposal?_implements hdistinct, ?_⟩
  intro e g data hsource hdecode hmajor
  have hservice : e.boundService p = r.forProposal? p := by
    unfold Endpoint.boundService
    rw [hsource]
  have haccepted := Endpoint.exists_accepted_iff (e := e) (g := g) (p := p)
  rw [hservice] at haccepted
  rw [Endpoint.process_of_judge (Endpoint.judge_of_bind hdecode hmajor)]
  refine ⟨e.bindAck g p, rfl, hservice, haccepted, fun hselected c s hc hs himplements hspeaks => ?_⟩
  generalize r.forProposal? p = x at hselected haccepted
  cases hselected with
  | none hnone => exact absurd hc.holds (hnone c hc.mem)
  | @some c' t hc' ht himplements' =>
    obtain rfl := hc.unique hc'
    have huuid : t.interface.uuid = s.interface.uuid :=
      himplements'.knows.trans himplements.knows.symm
    obtain rfl := hdistinct.eq_of_uuid ht hs huuid
    exact haccepted.mpr ⟨t, rfl, c, hc.mem, himplements, hspeaks⟩

namespace Endpoint

def sampleServices : Registry := .ofServices [bareService, otherService]

/-- A bind that proposes the interface of the other service after another one, and its bytes. -/
def sampleChoice (first : SyntaxId) : Proposal :=
  { Proposal.bind 1 [⟨0, first, [.ndr2]⟩, ⟨1, otherService.interface.id, [.ndr2]⟩] with
    header := { Header.of .bind 1 with fragmentLength := 116 } }

def sampleChoiceBytes (first : SyntaxId) : List UInt8 :=
  [5, 0, 11, 3, 16, 0, 0, 0, 116, 0, 0, 0, 1, 0, 0, 0, 184, 16, 184, 16, 0, 0, 0, 0, 2, 0, 0, 0] ++
    ([0, 0, 1, 0] ++ first.encode .little ++ SyntaxId.ndr2.encode .little) ++
    ([1, 0, 1, 0] ++ otherService.interface.id.encode .little ++ SyntaxId.ndr2.encode .little)

/-- After an interface that nobody has, the other service is selected, and its context accepted. -/
theorem bind_selects_after_unknown :
    Pdu.decode (sampleChoiceBytes .nil) = .ok (.bind (sampleChoice .nil)) ∧
      sampleServices.forProposal? (sampleChoice .nil) = some otherService ∧
      ∃ ack : Acknowledgement,
        ((ofRegistry sampleServices).process .new (sampleChoiceBytes .nil)).answers =
          (Action.reply (.bindAck ack)).perform 4280 ∧
        ∃ a ∈ ack.answers, a.isAccepted = true := by
  have hdecode : Pdu.decode (sampleChoiceBytes .nil) = .ok (.bind (sampleChoice .nil)) := by
    decide +kernel
  have hservice : sampleServices.forProposal? (sampleChoice .nil) = some otherService := rfl
  obtain ⟨-, -, hendpoint⟩ :=
    Registry.bind_selects [bareService, otherService] (sampleChoice .nil)
  obtain ⟨ack, hanswers, -, haccepts, -⟩ :=
    hendpoint (ofRegistry sampleServices) .new (sampleChoiceBytes .nil) rfl hdecode rfl
  have haccepted := haccepts.mpr ⟨otherService, hservice, ⟨1, otherService.interface.id, [.ndr2]⟩,
    by decide, rfl, fun hnone => hnone .ndr2 (by decide) (by decide)⟩
  have hmax : ((ofRegistry sampleServices).process .new
      (sampleChoiceBytes .nil)).endpoint.maxTransmit = 4280 := by decide +kernel
  rw [hmax] at hanswers
  exact ⟨hdecode, hservice, ack, hanswers, haccepted⟩

/-- After another version of a registered interface, the service of this one is selected. No context
is accepted, although the other service implements the second interface. -/
theorem otherVersion_selects :
    let p := sampleChoice ⟨bareService.interface.uuid, 9⟩
    let data := sampleChoiceBytes ⟨bareService.interface.uuid, 9⟩
    Pdu.decode data = .ok (.bind p) ∧ sampleServices.forProposal? p = some bareService ∧
      (∃ c ∈ p.contexts, otherService.Implements c) ∧
      ¬Selected Service.Implements sampleServices.services p.contexts
        (sampleServices.forProposal? p) ∧
      ((ofRegistry sampleServices).process .new data).endpoint.contexts = [] := by
  intro p data
  have hservice : sampleServices.forProposal? p = some bareService := rfl
  refine ⟨by decide +kernel, hservice, ⟨_, List.mem_cons_of_mem _ List.mem_cons_self, rfl⟩, ?_,
    by decide +kernel⟩
  rw [hservice]
  rintro ⟨hc, -, himplements⟩
  rcases List.mem_pair.mp hc.mem with rfl | rfl
  · exact absurd (congrArg SyntaxId.version himplements) (by decide)
  · exact absurd (congrArg SyntaxId.uuid himplements) (by decide)

end Endpoint

end RemoteCall
