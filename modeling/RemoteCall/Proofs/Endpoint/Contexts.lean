import RemoteCall.Proofs.Endpoint.Answers

/-! Which contexts are accepted, told from what was sent back and forth: since the latest bind, each
context is as its latest acceptance has it, and all acceptances were negotiated with the service
that the endpoint talks to now. -/

namespace RemoteCall

/-! ## Answers to contexts -/

/-- A context that was proposed, the answer it was given, and the service that the endpoint talked
to when it answered. -/
structure Outcome where
  context : Context
  answer : ContextAnswer
  service : Option Service

namespace Outcome

/-- The context of that id is accepted. -/
structure Accepts (o : Outcome) (id : UInt16) : Prop where
  id : o.context.id = id
  accepted : o.answer.isAccepted = true

/-- The answer is that of a service which has the interface and speaks what was accepted. -/
structure NegotiatedWith (o : Outcome) (s : Service) : Prop where
  service : o.service = some s
  answer : o.answer = ContextAnswer.negotiate (some s) o.context
  abstractSyntax : o.context.abstractSyntax = s.interface.id
  spoken : o.answer.transferSyntax ∈ s.transferSyntaxes
  offered : o.answer.transferSyntax ∈ o.context.transferSyntaxes

/-- What an endpoint that talks to the service answers. -/
def negotiated (service : Option Service) (c : Context) : Outcome :=
  ⟨c, ContextAnswer.negotiate service c, service⟩

/-- The latest acceptance of the context of that id. -/
def Latest (id : UInt16) (os : List Outcome) (o : Outcome) : Prop :=
  o.Accepts id ∧ ∃ earlier later, os = earlier ++ o :: later ∧ ∀ o' ∈ later, ¬ o'.Accepts id

/-- Adds the context if it was accepted. -/
def record (contexts : List (UInt16 × SyntaxId)) (o : Outcome) : List (UInt16 × SyntaxId) :=
  if o.answer.isAccepted then
    Endpoint.insertContext o.context.id o.answer.transferSyntax contexts
  else contexts

variable {id : UInt16} {os : List Outcome} {o o' : Outcome}

theorem Latest.mem (h : Latest id os o) : o ∈ os := by
  obtain ⟨-, earlier, later, rfl, -⟩ := h
  exact List.mem_append_right _ List.mem_cons_self

theorem not_latest_nil : ¬ Latest id [] o := by
  intro h
  cases h.mem

/-- One more answer is the latest acceptance, or it is none and makes no difference. -/
theorem latest_concat_iff : Latest id (os ++ [o']) o ↔
    (o = o' ∧ o'.Accepts id) ∨ (¬ o'.Accepts id ∧ Latest id os o) := by
  constructor
  · rintro ⟨haccepts, earlier, later, hsplit, hlater⟩
    rcases List.eq_nil_or_concat later with rfl | ⟨later, last, rfl⟩
    · obtain ⟨-, ho⟩ := List.append_inj' hsplit rfl
      cases ho
      exact .inl ⟨rfl, haccepts⟩
    · rw [List.concat_eq_append] at hsplit hlater
      rw [← List.cons_append, ← List.append_assoc] at hsplit
      obtain ⟨rfl, ho⟩ := List.append_inj' hsplit rfl
      cases ho
      obtain ⟨hlater, hlast⟩ := List.forall_mem_append.mp hlater
      have hnot : ¬ o'.Accepts id := hlast o' (List.mem_singleton_self o')
      exact .inr ⟨hnot, haccepts, earlier, later, rfl, hlater⟩
  · rintro (⟨rfl, haccepts⟩ | ⟨hnot, haccepts, earlier, later, rfl, hlater⟩)
    · exact ⟨haccepts, os, [], rfl, nofun⟩
    · refine ⟨haccepts, earlier, later ++ [o'], ?_, ?_⟩
      · rw [List.append_assoc, List.cons_append]
      · exact List.forall_mem_append.mpr ⟨hlater, List.forall_mem_singleton.mpr hnot⟩

/-- Where no two contexts have the same id, every acceptance is the latest one. -/
theorem latest_of_nodup (hids : (os.map (·.context.id)).Nodup) (ho : o ∈ os)
    (haccepts : o.Accepts id) : Latest id os o := by
  obtain ⟨earlier, later, rfl⟩ := List.append_of_mem ho
  refine ⟨haccepts, earlier, later, rfl, fun o' ho' haccepts' => ?_⟩
  rw [List.map_append, List.map_cons] at hids
  have hlater := (List.nodup_cons.mp (List.nodup_append.mp hids).2.1).1
  refine hlater ?_
  rw [haccepts.id, ← haccepts'.id]
  exact List.mem_map_of_mem ho'

end Outcome

namespace Endpoint

variable {id id' : UInt16} {t : SyntaxId} {contexts : List (UInt16 × SyntaxId)}

theorem find_insertContext :
    (insertContext id' t contexts).find? (·.1 == id) =
      if id' = id then some (id', t) else contexts.find? (·.1 == id) := by
  unfold insertContext
  by_cases hid : id' = id
  · rw [if_pos hid, List.find?_cons_of_pos]
    exact beq_iff_eq.mpr hid
  · rw [if_neg hid, List.find?_cons_of_neg (by rwa [beq_iff_eq]), List.find?_filter]
    congr 1
    funext x
    by_cases hx : x.1 = id
    · have hne : (x.1 != id') = true := by
        rw [bne_iff_ne, hx]
        exact fun h => hid h.symm
      simp only [hne, true_and, Bool.decide_eq_true]
    · simp only [beq_eq_false_iff_ne.mpr hx, Bool.false_eq_true, and_false, decide_false]

/-- What a proposal adds to the contexts are the answers that were negotiated for it. -/
theorem recordContexts_negotiate (service : Option Service) (cs : List Context) :
    recordContexts contexts cs (cs.map (ContextAnswer.negotiate service)) =
      (cs.map (Outcome.negotiated service)).foldl Outcome.record contexts := by
  induction cs generalizing contexts with
  | nil => rfl
  | cons c cs ih => exact ih

/-- What is recorded of a context is its latest acceptance. -/
theorem find_foldl_record_iff {os : List Outcome} :
    ((os.foldl Outcome.record []).find? (·.1 == id)).map (·.2) = some t ↔
      ∃ o, Outcome.Latest id os o ∧ o.answer.transferSyntax = t := by
  induction os using List.reverseRecOn with
  | nil =>
    constructor
    · nofun
    · rintro ⟨o, hlatest, -⟩
      exact absurd hlatest Outcome.not_latest_nil
  | append_singleton os o ih =>
    simp only [Outcome.latest_concat_iff, List.foldl_append, List.foldl_cons, List.foldl_nil]
    by_cases haccepts : o.Accepts id
    · rw [Outcome.record, if_pos haccepts.accepted, find_insertContext, if_pos haccepts.id]
      constructor
      · rintro ⟨⟩
        exact ⟨o, .inl ⟨rfl, haccepts⟩, rfl⟩
      · rintro ⟨o', ⟨rfl, -⟩ | ⟨hnot, -⟩, rfl⟩
        · rfl
        · exact absurd haccepts hnot
    · have hsame : (Outcome.record (os.foldl Outcome.record []) o).find? (·.1 == id) =
          (os.foldl Outcome.record []).find? (·.1 == id) := by
        unfold Outcome.record
        split
        · rename_i haccepted
          rw [find_insertContext, if_neg fun hid => haccepts ⟨hid, haccepted⟩]
        · rfl
      rw [hsame, ih]
      constructor
      · rintro ⟨o', hlatest, rfl⟩
        exact ⟨o', .inr ⟨haccepts, hlatest⟩, rfl⟩
      · rintro ⟨o', ⟨rfl, haccepts'⟩ | ⟨-, hlatest⟩, rfl⟩
        · exact absurd haccepts' haccepts
        · exact ⟨o', hlatest, rfl⟩

end Endpoint

/-- A service accepts contexts on its own interface, with what both sides speak. -/
theorem Outcome.negotiatedWith {service : Option Service} {c : Context}
    (haccepted : (negotiated service c).answer.isAccepted = true) :
    ∃ s, service = some s ∧ (negotiated service c).NegotiatedWith s := by
  cases service with
  | none => cases haccepted
  | some s =>
    have hanswer : ∃ t, c.abstractSyntax = s.interface.id ∧
        c.transferSyntaxes.find? s.transferSyntaxes.contains = some t ∧
        ContextAnswer.negotiate (some s) c = .accept t := by
      unfold negotiated ContextAnswer.negotiate at haccepted
      unfold ContextAnswer.negotiate
      dsimp only at haccepted ⊢
      split at haccepted
      · cases haccepted
      · rename_i hinterface
        rw [bne_iff_ne, not_not] at hinterface
        rw [hinterface, bne_self_eq_false, if_neg Bool.false_ne_true]
        cases hfind : c.transferSyntaxes.find? s.transferSyntaxes.contains with
        | some t => exact ⟨t, rfl, rfl, rfl⟩
        | none =>
          rw [hfind] at haccepted
          dsimp only at haccepted
          split at haccepted <;> cases haccepted
    obtain ⟨t, hinterface, hfind, haccept⟩ := hanswer
    have ht : (negotiated (some s) c).answer.transferSyntax = t :=
      congrArg ContextAnswer.transferSyntax haccept
    refine ⟨s, rfl, rfl, rfl, hinterface, ?_, ?_⟩
    · rw [ht]
      exact List.contains_iff_mem.mp (List.find?_some hfind)
    · rw [ht]
      exact List.mem_of_find?_eq_some hfind

/-- A context that a bind is told to be accepted can be used, with what it is told, and is one of the
service. -/
theorem Endpoint.acceptedContext_bound {e : Endpoint} {g : GroupAllocator} {p : Proposal}
    (hids : (p.contexts.map (·.id)).Nodup) {context : Context} {answer : ContextAnswer}
    (hmem : (context, answer) ∈ p.contexts.zip (e.bindAck g p).answers)
    (haccepted : answer.isAccepted = true) :
    (e.bound g p).acceptedContext? context.id = some answer.transferSyntax ∧
      ∃ s, (e.bound g p).service = some s ∧ s.interface.id = context.abstractSyntax := by
  let service := e.boundService p
  have hanswers : (e.bindAck g p).answers = p.contexts.map (ContextAnswer.negotiate service) := rfl
  rw [hanswers, ← List.map_prod_left_eq_zip] at hmem
  obtain ⟨context, hcontext, ⟨⟩⟩ := List.mem_map.mp hmem
  obtain ⟨s, hs, hnegotiated⟩ := Outcome.negotiatedWith haccepted
  refine ⟨?_, s, hs, hnegotiated.abstractSyntax.symm⟩
  have hrecorded : (e.bound g p).contexts =
      (p.contexts.map (Outcome.negotiated service)).foldl Outcome.record [] :=
    recordContexts_negotiate service p.contexts
  unfold acceptedContext?
  rw [hrecorded, find_foldl_record_iff]
  refine ⟨Outcome.negotiated service context, ?_, rfl⟩
  refine Outcome.latest_of_nodup ?_ (List.mem_map_of_mem hcontext) ⟨rfl, haccepted⟩
  rw [List.map_map]
  exact hids

/-! ## Exchanges -/

/-- A unit from the client, and what came of it. -/
structure Exchange where
  data : List UInt8
  turn : Turn

namespace Exchange

/-- The contexts that the client proposed. -/
def proposed (x : Exchange) : List Context :=
  match Pdu.decode x.data with
  | .ok (.bind p) | .ok (.alterContext p) => p.contexts
  | _ => []

/-- The answers in the acknowledgement that the client was sent. -/
def acknowledged (x : Exchange) : List ContextAnswer :=
  match x.turn.answers with
  | .ok [b] =>
    match Pdu.decode b with
    | .ok (.bindAck ack) | .ok (.alterContextResponse ack) => ack.answers
    | _ => []
  | _ => []

def outcomes (x : Exchange) : List Outcome :=
  (x.proposed.zip x.acknowledged).map fun (c, a) => ⟨c, a, x.turn.endpoint.service⟩

/-- All answers to contexts since the latest bind, its own included. -/
inductive SinceBind : List Exchange → List Outcome → Prop
  | of {before later : List Exchange} {bind : Exchange} (hbind : IsBind bind.data)
      (hlater : ∀ x ∈ later, ¬ IsBind x.data) :
    SinceBind (before ++ bind :: later) ((bind :: later).flatMap outcomes)

variable {past : List Exchange} {os os' : List Outcome} {x : Exchange}

theorem SinceBind.of_isBind (past : List Exchange) (hx : IsBind x.data) :
    SinceBind (past ++ [x]) x.outcomes := by
  have h : SinceBind (past ++ [x]) ([x].flatMap outcomes) := .of hx (List.forall_mem_nil _)
  rwa [List.flatMap_cons, List.flatMap_nil, List.append_nil] at h

theorem SinceBind.concat (h : SinceBind past os) (hx : ¬ IsBind x.data) :
    SinceBind (past ++ [x]) (os ++ x.outcomes) := by
  cases h with
  | @of before later bind hbind hlater =>
    have hlater' : ∀ y ∈ later ++ [x], ¬ IsBind y.data :=
      List.forall_mem_append.mpr ⟨hlater, List.forall_mem_singleton.mpr hx⟩
    have h : SinceBind (before ++ bind :: (later ++ [x]))
        ((bind :: (later ++ [x])).flatMap outcomes) := .of hbind hlater'
    have hx : [x].flatMap outcomes = x.outcomes := by
      rw [List.flatMap_cons, List.flatMap_nil, List.append_nil]
    rwa [← List.cons_append, ← List.append_assoc, List.flatMap_append, hx] at h

theorem cons_eq_of_latest {before later before' later' : List Exchange} {bind bind' : Exchange}
    (hsplit : before ++ bind :: later = before' ++ bind' :: later') (hbind' : IsBind bind'.data)
    (hlater : ∀ y ∈ later, ¬ IsBind y.data) (hle : ∃ between, before' = before ++ between) :
    bind :: later = bind' :: later' := by
  obtain ⟨between, rfl⟩ := hle
  rw [List.append_assoc, List.append_cancel_left_eq] at hsplit
  cases between with
  | nil => exact hsplit
  | cons y between =>
    obtain ⟨-, rfl⟩ := List.cons_eq_cons.mp hsplit
    exact absurd hbind' (hlater bind' (List.mem_append_right _ List.mem_cons_self))

/-- There is only one latest bind. -/
theorem SinceBind.unique (h : SinceBind past os) (h' : SinceBind past os') : os = os' := by
  cases h with
  | @of before later bind hbind hlater =>
    generalize hpast : before ++ bind :: later = past at h'
    cases h' with
    | @of before' later' bind' hbind' hlater' =>
      rcases List.append_eq_append_iff.mp hpast with ⟨between, hle, -⟩ | ⟨between, hle, -⟩
      · rw [cons_eq_of_latest hpast hbind' hlater ⟨between, hle⟩]
      · rw [cons_eq_of_latest hpast.symm hbind hlater' ⟨between, hle⟩]

/-- The exchange in which one unit is the answer. -/
def replied (data : List UInt8) (unit : Pdu) (e : Endpoint) (g : GroupAllocator) : Exchange :=
  ⟨data, (Action.reply unit).perform e.maxTransmit, e, g⟩

/-! What is acknowledged is told from the unit that is sent. -/

theorem acknowledged_of_error {err : Error} (h : x.turn.answers = .error err) :
    x.acknowledged = [] := by
  unfold acknowledged
  rw [h]

theorem acknowledged_of_refuses {u : Pdu} {b : List UInt8} (hu : u.Refuses) (hb : u.Written b)
    (h : x.turn.answers = .ok [b]) : x.acknowledged = [] := by
  have hdecode := hb.decode
  unfold acknowledged
  rw [h]
  dsimp only
  rw [hdecode]
  cases hu <;> rfl

theorem acknowledged_of_written {u : Pdu} {ack : Acknowledgement} {b : List UInt8}
    (hu : u = .bindAck ack ∨ u = .alterContextResponse ack) (hb : u.Written b)
    (h : x.turn.answers = .ok [b]) : x.acknowledged = ack.answers := by
  have hdecode := hb.decode
  unfold acknowledged
  rw [h]
  dsimp only
  rw [hdecode]
  rcases hu with rfl | rfl <;> rfl

theorem outcomes_of_acknowledged (h : x.acknowledged = []) : x.outcomes = [] := by
  rw [outcomes, h, List.zip_nil_right, List.map_nil]

/-- A unit that is neither a bind nor an alter_context proposes nothing. -/
theorem outcomes_of_decode {u : Pdu} (hdecode : Pdu.decode x.data = .ok u)
    (hbind : ∀ p, u ≠ .bind p) (halter : ∀ p, u ≠ .alterContext p) : x.outcomes = [] := by
  have hproposed : x.proposed = [] := by
    unfold proposed
    rw [hdecode]
    split
    · rename_i p heq
      exact absurd (Except.ok.inj heq) (hbind p)
    · rename_i p heq
      exact absurd (Except.ok.inj heq) (halter p)
    · rfl
  rw [outcomes, hproposed, List.zip_nil_left, List.map_nil]

/-- A proposal that is acknowledged has the answers that were negotiated for it. -/
theorem outcomes_of_negotiate {service : Option Service} {cs : List Context}
    (hproposed : x.proposed = cs)
    (hacknowledged : x.acknowledged = cs.map (ContextAnswer.negotiate service))
    (hservice : x.turn.endpoint.service = service) :
    x.outcomes = cs.map (Outcome.negotiated service) := by
  rw [outcomes, hproposed, hacknowledged, hservice, ← List.map_prod_left_eq_zip, List.map_map]
  rfl

theorem proposed_of_decode {p : Proposal}
    (h : Pdu.decode x.data = .ok (.bind p) ∨ Pdu.decode x.data = .ok (.alterContext p)) :
    x.proposed = p.contexts := by
  unfold proposed
  rcases h with h | h <;> rw [h]

end Exchange

/-! ## What an endpoint has accepted -/

namespace Endpoint

/-- The exchanges of a run. -/
def exchanges (e : Endpoint) : List (GroupAllocator × List UInt8) → List Exchange
  | [] => []
  | (g, data) :: items =>
    ⟨data, e.process g data⟩ :: (e.process g data).endpoint.exchanges items

/-- The contexts of the endpoint are those of the exchanges, and all that it has accepted is
negotiated with the service that it talks to. -/
inductive Remembers (past : List Exchange) (e : Endpoint) : Prop
  | unbound (hpast : ∀ x ∈ past, ¬ IsBind x.data) (hgroup : e.group = none)
      (hcontexts : e.contexts = []) : Remembers past e
  | bound {os : List Outcome} (hsince : Exchange.SinceBind past os)
      (hcontexts : e.contexts = os.foldl Outcome.record [])
      (hservice : ∀ o ∈ os, o.answer.isAccepted = true →
        ∃ s, e.service = some s ∧ o.NegotiatedWith s) : Remembers past e

variable {e e' : Endpoint} {g : GroupAllocator} {data : List UInt8} {past : List Exchange}
  {x : Exchange}

/-- Exchanges without an outcome change nothing. -/
theorem Remembers.concat (h : Remembers past e) (hbind : ¬ IsBind x.data) (hx : x.outcomes = [])
    (hgroup : e'.group = e.group) (hcontexts : e'.contexts = e.contexts)
    (hservice : e'.service = e.service) : Remembers (past ++ [x]) e' := by
  cases h with
  | unbound hpast hnone hempty =>
    refine .unbound ?_ (hgroup.trans hnone) (hcontexts.trans hempty)
    exact List.forall_mem_append.mpr ⟨hpast, List.forall_mem_singleton.mpr hbind⟩
  | bound hsince hrecorded hagreed =>
    have hsince' := hsince.concat hbind
    rw [hx, List.append_nil] at hsince'
    refine .bound hsince' (hcontexts.trans hrecorded) ?_
    rw [hservice]
    exact hagreed

/-- A bind makes the endpoint forget what was before it. -/
theorem remembers_bound (hsound : e.Sound) {p : Proposal}
    (hdecode : Pdu.decode data = .ok (.bind p)) (hmajor : p.header.major = Header.version)
    (past : List Exchange) (g' : GroupAllocator) :
    Remembers (past ++ [.replied data (.bindAck (e.bindAck g p)) (e.bound g p) g'])
      (e.bound g p) := by
  obtain ⟨b, hb⟩ := hsound.bindAck_written (g := g) hdecode
  have hanswers := Action.perform_reply hb (e.bound g p).maxTransmit
  have hsince := Exchange.SinceBind.of_isBind
    (x := .replied data (.bindAck (e.bindAck g p)) (e.bound g p) g') past ⟨p, hdecode, hmajor⟩
  rw [Exchange.outcomes_of_negotiate (Exchange.proposed_of_decode (.inl hdecode))
    (Exchange.acknowledged_of_written (.inl rfl) hb hanswers) rfl] at hsince
  refine .bound hsince (recordContexts_negotiate _ _) ?_
  intro o ho haccepted
  obtain ⟨c, -, rfl⟩ := List.mem_map.mp ho
  exact Outcome.negotiatedWith haccepted

/-- An alter_context adds to what was accepted, and leaves the service that accepted it. -/
theorem Remembers.altered (h : Remembers past e) {p : Proposal} {group : UInt32}
    (hdecode : Pdu.decode data = .ok (.alterContext p)) (hgroup : e.group = some group)
    (g : GroupAllocator) :
    Remembers (past ++ [.replied data (.alterContextResponse (e.alterAck p group))
      (e.altered p group) g]) (e.altered p group) := by
  obtain ⟨b, hb⟩ := alterAck_written (e := e) group hdecode
  have hanswers := Action.perform_reply hb (e.altered p group).maxTransmit
  cases h with
  | unbound _ hnone =>
    rw [hnone] at hgroup
    cases hgroup
  | @bound os hsince hrecorded hagreed =>
    have hsince' := hsince.concat
      (x := .replied data (.alterContextResponse (e.alterAck p group)) (e.altered p group) g)
      (not_isBind_of_decode hdecode fun _ hu => nomatch hu)
    rw [Exchange.outcomes_of_negotiate (Exchange.proposed_of_decode (.inr hdecode))
      (Exchange.acknowledged_of_written (.inr rfl) hb hanswers) rfl] at hsince'
    refine .bound hsince' ?_ ?_
    · rw [List.foldl_append, ← hrecorded]
      exact recordContexts_negotiate _ _
    · intro o ho haccepted
      rcases List.mem_append.mp ho with ho | ho
      · obtain ⟨s, hs, hnegotiated⟩ := hagreed o ho haccepted
        exact ⟨s, alteredService_of_service hs p, hnegotiated⟩
      · obtain ⟨c, -, rfl⟩ := List.mem_map.mp ho
        exact Outcome.negotiatedWith haccepted

/-- One step: the endpoint remembers one more exchange. -/
theorem Remembers.step (h : Remembers past e) (hsound : e.Sound) (g : GroupAllocator)
    (data : List UInt8) :
    Remembers (past ++ [⟨data, e.process g data⟩]) (e.process g data).endpoint := by
  cases hjudge : e.judge g data with
  | error err =>
    have hbind : ¬ IsBind data := by
      rintro ⟨p, hdecode, -⟩
      rw [judge_of_decode hdecode] at hjudge
      cases hjudge
    rw [process_of_judge_error hjudge]
    exact h.concat hbind (Exchange.outcomes_of_acknowledged (Exchange.acknowledged_of_error rfl))
      rfl rfl rfl
  | ok judged =>
    obtain ⟨action, e', g'⟩ := judged
    rw [process_of_judge hjudge]
    cases verdict_of_judge hjudge with
    | refused hunit hbind =>
      obtain ⟨b, hb⟩ := hunit.written
      have hanswers := Action.perform_reply hb e.maxTransmit
      exact h.concat hbind (Exchange.outcomes_of_acknowledged
        (Exchange.acknowledged_of_refuses hunit hb hanswers)) rfl rfl rfl
    | bound hdecode hmajor => exact remembers_bound hsound hdecode hmajor past _
    | altered hdecode _ hgroup => exact h.altered hdecode hgroup g
    | request hdecode =>
      exact h.concat (not_isBind_of_decode hdecode fun _ hu => nomatch hu)
        (Exchange.outcomes_of_decode hdecode (fun _ hu => nomatch hu) fun _ hu => nomatch hu)
        rfl rfl rfl
    | other hdecode =>
      exact h.concat (not_isBind_of_decode hdecode fun _ hu => nomatch hu)
        (Exchange.outcomes_of_decode hdecode (fun _ hu => nomatch hu) fun _ hu => nomatch hu)
        rfl rfl rfl

/-- Run: the endpoint remembers all exchanges. -/
theorem remembers_after (h : Remembers past e) (hsound : e.Sound)
    (items : List (GroupAllocator × List UInt8)) :
    Remembers (past ++ e.exchanges items) (e.after items) := by
  induction items generalizing e past with
  | nil =>
    rw [exchanges, List.append_nil]
    exact h
  | cons item items ih =>
    obtain ⟨g, data⟩ := item
    have hrest := ih (h.step hsound g data) (Sound.kept.process hsound g data)
    rw [List.append_assoc] at hrest
    exact hrest

theorem Fresh.remembers (h : e.Fresh) : Remembers [] e := by
  cases h with
  | ofService => exact .unbound (List.forall_mem_nil _) rfl rfl
  | ofRegistry => exact .unbound (List.forall_mem_nil _) rfl rfl

theorem Remembers.acceptedContext_iff (h : Remembers past e) {id : UInt16} {t : SyntaxId} :
    e.acceptedContext? id = some t ↔ ∃ os o, Exchange.SinceBind past os ∧
      Outcome.Latest id os o ∧ o.answer.transferSyntax = t := by
  unfold acceptedContext?
  cases h with
  | unbound hpast _ hcontexts =>
    rw [hcontexts]
    constructor
    · nofun
    · rintro ⟨_, _, ⟨hbind, -⟩, -⟩
      exact absurd hbind (hpast _ (List.mem_append_right _ List.mem_cons_self))
  | @bound os hsince hcontexts =>
    rw [hcontexts, find_foldl_record_iff]
    constructor
    · rintro ⟨o, hlatest, ht⟩
      exact ⟨os, o, hsince, hlatest, ht⟩
    · rintro ⟨os', o, hsince', hlatest, ht⟩
      obtain rfl := hsince.unique hsince'
      exact ⟨o, hlatest, ht⟩

theorem Remembers.negotiatedWith (h : Remembers past e) {os : List Outcome} {o : Outcome}
    (hsince : Exchange.SinceBind past os) (ho : o ∈ os) (haccepted : o.answer.isAccepted = true) :
    ∃ s, e.service = some s ∧ o.NegotiatedWith s := by
  cases h with
  | unbound hpast =>
    obtain ⟨hbind, -⟩ := hsince
    exact absurd hbind (hpast _ (List.mem_append_right _ List.mem_cons_self))
  | bound hsince' _ hservice =>
    obtain rfl := hsince.unique hsince'
    exact hservice o ho haccepted

/-- A call is executed by the current service, on an accepted context. -/
theorem of_judge_execute {call : Call} {g g' : GroupAllocator}
    (hjudge : e.judge g data = .ok (.execute call, e', g')) :
    e.service = some call.service ∧ (e.acceptedContext? call.contextId).isSome = true := by
  have hverdict := verdict_of_judge hjudge
  generalize haction : Action.execute call = action at hverdict
  cases hverdict with
  | @request r =>
    rcases judgeRequest_cases e r with hsilent | ⟨u, hu, -⟩ | ⟨call', hcall, hservice, hcontext⟩
    · rw [hsilent] at haction
      cases haction
    · rw [hu] at haction
      cases haction
    · rw [hcall] at haction
      cases haction
      exact ⟨hservice, hcontext⟩
  | _ => cases haction

/-- **The accepted contexts.** In a run from a new endpoint, what is spoken on a context is what its
latest acceptance says, of all answers since the latest bind. Every acceptance since then was
negotiated with the service that the endpoint talks to now, which has the interface of the context
and speaks what was accepted; without a service, no context is accepted. So a call is only ever
executed by the service that its context was negotiated with. -/
theorem acceptedContext_after (h : e.Fresh) (past : List (GroupAllocator × List UInt8)) :
    (∀ id t, (e.after past).acceptedContext? id = some t ↔
      ∃ os o, Exchange.SinceBind (e.exchanges past) os ∧ Outcome.Latest id os o ∧
        o.answer.transferSyntax = t) ∧
    (∀ os, Exchange.SinceBind (e.exchanges past) os →
      ∀ o ∈ os, o.answer.isAccepted = true →
        ∃ s, (e.after past).service = some s ∧ o.NegotiatedWith s) ∧
    ((e.after past).service = none → ∀ id, (e.after past).acceptedContext? id = none) ∧
    ∀ g data call e' g', (e.after past).judge g data = .ok (.execute call, e', g') →
      ∃ os o, Exchange.SinceBind (e.exchanges past) os ∧ Outcome.Latest call.contextId os o ∧
        o.NegotiatedWith call.service := by
  have hremembers : Remembers (e.exchanges past) (e.after past) :=
    remembers_after h.remembers h.sound past
  -- The latest acceptance behind an accepted context, with the service it was negotiated with.
  have hbehind : ∀ id t, (e.after past).acceptedContext? id = some t →
      ∃ os o s, Exchange.SinceBind (e.exchanges past) os ∧ Outcome.Latest id os o ∧
        (e.after past).service = some s ∧ o.NegotiatedWith s := by
    intro id t hid
    obtain ⟨os, o, hsince, hlatest, -⟩ := hremembers.acceptedContext_iff.mp hid
    obtain ⟨s, hs, ho⟩ := hremembers.negotiatedWith hsince hlatest.mem hlatest.1.accepted
    exact ⟨os, o, s, hsince, hlatest, hs, ho⟩
  refine ⟨fun _ _ => hremembers.acceptedContext_iff, ?_, ?_, ?_⟩
  · intro os hsince o ho haccepted
    exact hremembers.negotiatedWith hsince ho haccepted
  · intro hnone id
    cases hid : (e.after past).acceptedContext? id with
    | none => rfl
    | some t =>
      obtain ⟨_, _, s, -, -, hs, -⟩ := hbehind id t hid
      rw [hnone] at hs
      cases hs
  · intro g data call e' g' hjudge
    obtain ⟨hservice, hcontext⟩ := of_judge_execute hjudge
    obtain ⟨t, ht⟩ := Option.isSome_iff_exists.mp hcontext
    obtain ⟨os, o, s, hsince, hlatest, hs, ho⟩ := hbehind call.contextId t ht
    rw [hservice] at hs
    cases hs
    exact ⟨os, o, hsince, hlatest, ho⟩

def otherService : Service := ⟨⟨⟨5, 6, 7, 8⟩, 1, 0, "other"⟩, "other", [.ndr2], .empty⟩

/-- The bytes of a bind that proposes one context. -/
def sampleBind (id : UInt8) (s : Service) : List UInt8 :=
  [5, 0, 11, 3, 16, 0, 0, 0, 72, 0, 0, 0, 1, 0, 0, 0, 184, 16, 184, 16, 0, 0, 0, 0, 1, 0, 0, 0,
    id, 0, 1, 0] ++ s.interface.id.encode .little ++ SyntaxId.ndr2.encode .little

/-- Binds to one service and then to another one. -/
def sampleRun : List (GroupAllocator × List UInt8) :=
  [(.new, sampleBind 0 bareService), (.new, sampleBind 1 otherService)]

/-- After the second bind only its own context is accepted, with the second service. -/
theorem acceptedContext_after_sampleRun :
    ((ofRegistry ⟨[bareService, otherService]⟩).after sampleRun).acceptedContext? 0 = none ∧
      ∃ os o, Exchange.SinceBind ((ofRegistry ⟨[bareService, otherService]⟩).exchanges sampleRun)
        os ∧ Outcome.Latest 1 os o ∧ o.NegotiatedWith otherService := by
  have hnames : ∀ s ∈ [bareService, otherService], s.Announceable := by
    unfold Service.Announceable
    decide
  have hfresh : (ofRegistry ⟨[bareService, otherService]⟩).Fresh := .ofRegistry hnames
  obtain ⟨hcontexts, hservice, -, -⟩ := acceptedContext_after hfresh sampleRun
  obtain ⟨os, o, hsince, hlatest, -⟩ := (hcontexts 1 .ndr2).mp rfl
  obtain ⟨s, hs, ho⟩ := hservice os hsince o hlatest.mem hlatest.1.accepted
  have hother : ((ofRegistry ⟨[bareService, otherService]⟩).after sampleRun).service =
    some otherService := rfl
  rw [hother] at hs
  cases hs
  exact ⟨rfl, os, o, hsince, hlatest, ho⟩

end Endpoint

end RemoteCall
