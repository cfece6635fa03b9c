import RemoteCall.Proofs.Endpoint.Execution

/-! All that one unit can do to an endpoint (`Endpoint.verdict_of_judge`). Only a bind and an
alter_context have a say in the service, the group, the contexts and the fragment sizes; a request
and an orphaned unit change the assembly, and every other unit leaves the endpoint as it is. -/

namespace RemoteCall

/-- A bind of the version that is spoken, which starts a new association. -/
def IsBind (data : List UInt8) : Prop :=
  ∃ p, Pdu.decode data = .ok (.bind p) ∧ p.header.major = Header.version

theorem IsBind.isSpoken {data : List UInt8} (h : IsBind data) : IsSpoken data := by
  obtain ⟨p, hdecode, hmajor⟩ := h
  exact ⟨.bind p, hdecode, hmajor⟩

namespace Endpoint

/-! ## Binds and alter_contexts -/

/-- The service of the association that a bind starts. -/
def boundService (e : Endpoint) (p : Proposal) : Option Service :=
  match e.source with
  | .fixed => e.service
  | .registry r => r.forProposal? p

def bindAck (e : Endpoint) (g : GroupAllocator) (p : Proposal) : Acknowledgement :=
  (Acknowledgement.ofBind g (e.boundService p) p).1

/-- The endpoint once it has acknowledged a bind. -/
def bound (e : Endpoint) (g : GroupAllocator) (p : Proposal) : Endpoint :=
  { e with
    service := e.boundService p
    group := some (e.bindAck g p).group
    contexts := recordContexts [] p.contexts (e.bindAck g p).answers
    maxTransmit := (e.bindAck g p).maxTransmit
    maxReceive := (e.bindAck g p).maxReceive
    assembly := .awaitingFirst }

/-- The service after an alter_context: the one that is there, or one that the alter_context
selects. -/
def alteredService (e : Endpoint) (p : Proposal) : Option Service :=
  match e.service, e.source with
  | none, .registry r => r.forProposal? p
  | service, _ => service

def alterAck (e : Endpoint) (p : Proposal) (group : UInt32) : Acknowledgement :=
  { Acknowledgement.ofAlterContext (e.alteredService p) p group with
    maxTransmit := e.maxTransmit
    maxReceive := e.maxReceive }

/-- The endpoint once it has acknowledged an alter_context. -/
def altered (e : Endpoint) (p : Proposal) (group : UInt32) : Endpoint :=
  { e with
    service := e.alteredService p
    contexts := recordContexts e.contexts p.contexts (e.alterAck p group).answers }

variable {e e' : Endpoint} {g g' : GroupAllocator} {data : List UInt8} {action : Action}
  {p : Proposal}

theorem judgeBind_of_spoken (hmajor : p.header.major = Header.version) :
    e.judgeBind g p = (.reply (.bindAck (e.bindAck g p)), e.bound g p,
      (Acknowledgement.ofBind g (e.boundService p) p).2) := by
  have hproceeds : ¬ (p.header.major != Header.version) = true := by
    rw [hmajor, bne_self_eq_false]
    exact Bool.false_ne_true
  unfold judgeBind
  rw [if_neg hproceeds]
  rfl

theorem judge_of_bind (hdecode : Pdu.decode data = .ok (.bind p))
    (hmajor : p.header.major = Header.version) :
    e.judge g data = .ok (.reply (.bindAck (e.bindAck g p)), e.bound g p,
      (Acknowledgement.ofBind g (e.boundService p) p).2) := by
  rw [← judgeBind_of_spoken hmajor]
  exact judge_of_spoken hdecode hmajor

theorem judgeAlterContext_of_bound {group : UInt32} (hgroup : e.group = some group) :
    e.judgeAlterContext p =
      (.reply (.alterContextResponse (e.alterAck p group)), e.altered p group) := by
  cases e
  cases hgroup
  rfl

theorem judgeAlterContext_of_unbound (hgroup : e.group = none) :
    e.judgeAlterContext p = (.protocolFault p.header.callId 0, e) := by
  unfold judgeAlterContext
  rw [hgroup]

/-- An alter_context does not take a service away. -/
theorem alteredService_of_service {s : Service} (hservice : e.service = some s) (p : Proposal) :
    e.alteredService p = some s := by
  unfold alteredService
  rw [hservice]

/-! ## Any unit -/

theorem process_of_judge (hjudge : e.judge g data = .ok (action, e', g')) :
    e.process g data = ⟨action.perform e'.maxTransmit, e', g'⟩ := by
  unfold process turn
  rw [hjudge]

theorem process_of_judge_error {err : Error} (hjudge : e.judge g data = .error err) :
    e.process g data = ⟨.error err, e, g⟩ := by
  unfold process turn
  rw [hjudge]

theorem judgeOther_eq (e : Endpoint) (h : Header) :
    ∃ assembly, e.judgeOther h = (.silent, { e with assembly }) := by
  unfold judgeOther
  split
  · exact ⟨.awaitingFirst, rfl⟩
  · exact ⟨e.assembly, rfl⟩

/-- A fragment has no answer, or it is refused, or it completes a call on an accepted context. -/
theorem judgeRequest_cases (e : Endpoint) (r : Request) :
    (e.judgeRequest r).1 = .silent ∨ (∃ u, (e.judgeRequest r).1 = .reply u ∧ u.Refuses) ∨
      ∃ call, (e.judgeRequest r).1 = .execute call ∧ e.service = some call.service ∧
        (e.acceptedContext? call.contextId).isSome = true := by
  rw [judgeRequest_action]
  cases (e.assembly.push r.fragment).1 with
  | error defect => exact .inr (.inl ⟨_, rfl, .fault ..⟩)
  | ok payload =>
    cases payload with
    | none => exact .inl rfl
    | some stub =>
      dsimp only
      split
      · rename_i hservice hcontext
        exact .inr (.inr ⟨_, rfl, hservice, Option.isSome_iff_exists.mpr ⟨_, hcontext⟩⟩)
      · exact .inr (.inl ⟨_, rfl, .fault ..⟩)

/-- What is replied to a fragment is a refusal. -/
theorem judgeRequest_refuses {e : Endpoint} {r : Request} {u : Pdu}
    (h : (e.judgeRequest r).1 = .reply u) : u.Refuses := by
  rcases judgeRequest_cases e r with hsilent | ⟨u', hu', hrefuses⟩ | ⟨call, hcall, -⟩
  · cases hsilent.symm.trans h
  · cases hu'.symm.trans h
    exact hrefuses
  · cases hcall.symm.trans h

/-- What can come of a unit. -/
inductive Verdict (e : Endpoint) (g : GroupAllocator) (data : List UInt8) :
    Action → Endpoint → GroupAllocator → Prop
  | refused {unit : Pdu} (hunit : unit.Refuses) (hbind : ¬ IsBind data) :
    Verdict e g data (.reply unit) e g
  | bound {p : Proposal} (hdecode : Pdu.decode data = .ok (.bind p))
      (hmajor : p.header.major = Header.version) :
    Verdict e g data (.reply (.bindAck (e.bindAck g p))) (e.bound g p)
      (Acknowledgement.ofBind g (e.boundService p) p).2
  | altered {p : Proposal} {group : UInt32} (hdecode : Pdu.decode data = .ok (.alterContext p))
      (hmajor : p.header.major = Header.version) (hgroup : e.group = some group) :
    Verdict e g data (.reply (.alterContextResponse (e.alterAck p group))) (e.altered p group) g
  | request {r : Request} (hdecode : Pdu.decode data = .ok (.request r))
      (hmajor : r.header.major = Header.version) :
    Verdict e g data (e.judgeRequest r).1
      { e with assembly := (e.assembly.push r.fragment).2 } g
  | other {h : Header} {body : List UInt8} {assembly : Assembly}
      (hdecode : Pdu.decode data = .ok (.other h body)) (hmajor : h.major = Header.version) :
    Verdict e g data .silent { e with assembly } g

theorem not_isBind_of_decode {u : Pdu} (hdecode : Pdu.decode data = .ok u)
    (hu : ∀ p, u = .bind p → p.header.major ≠ Header.version) : ¬ IsBind data := by
  rintro ⟨p, hbind, hmajor⟩
  rw [hdecode, Except.ok.injEq] at hbind
  exact hu p hbind hmajor

theorem verdict_of_judgePdu {u : Pdu} (hdecode : Pdu.decode data = .ok u)
    (hmajor : u.header.major = Header.version)
    (hjudge : e.judgePdu g u = (action, e', g')) : Verdict e g data action e' g' := by
  cases u with
  | bind p =>
    rw [show e.judgePdu g (.bind p) = e.judgeBind g p from rfl,
      judgeBind_of_spoken hmajor] at hjudge
    cases hjudge
    exact .bound hdecode hmajor
  | alterContext p =>
    simp only [judgePdu] at hjudge
    cases hgroup : e.group with
    | none =>
      rw [judgeAlterContext_of_unbound hgroup] at hjudge
      cases hjudge
      refine .refused (.fault ..) (not_isBind_of_decode hdecode ?_)
      rintro _ ⟨⟩
    | some group =>
      rw [judgeAlterContext_of_bound hgroup] at hjudge
      cases hjudge
      exact .altered hdecode hmajor hgroup
  | request r =>
    simp only [judgePdu, judgeRequest_endpoint] at hjudge
    cases hjudge
    exact .request hdecode hmajor
  | other h body =>
    obtain ⟨assembly, hother⟩ := judgeOther_eq e h
    simp only [judgePdu, hother] at hjudge
    cases hjudge
    exact .other hdecode hmajor
  | _ =>
    cases hjudge
    refine .refused (.fault ..) (not_isBind_of_decode hdecode ?_)
    rintro _ ⟨⟩

/-- Inversion: what is judged is one of these. -/
theorem verdict_of_judge (hjudge : e.judge g data = .ok (action, e', g')) :
    Verdict e g data action e' g' := by
  by_cases hspoken : IsSpoken data
  · obtain ⟨u, hdecode, hmajor⟩ := hspoken
    rw [judge_of_spoken hdecode hmajor, Except.ok.injEq] at hjudge
    exact verdict_of_judgePdu hdecode hmajor hjudge
  · rcases judge_of_not_spoken hspoken with ⟨err, herr⟩ | ⟨unit, hunit, hrefused⟩
    · rw [herr] at hjudge
      cases hjudge
    · rw [hrefused] at hjudge
      cases hjudge
      exact .refused hunit fun hbind => hspoken hbind.isSpoken

/-! ## Invariants -/

/-- What becomes of an endpoint, one of `Start` to begin with, by any units. It shares the allocator
of groups with others, so any allocator may come with them. -/
inductive Reachable (Start : Endpoint → Prop) : Endpoint → Prop
  | start {e : Endpoint} (h : Start e) : Reachable Start e
  | process {e : Endpoint} (h : Reachable Start e) (g : GroupAllocator) (data : List UInt8) :
    Reachable Start (e.process g data).endpoint
  | processProposal {e : Endpoint} (h : Reachable Start e) (g : GroupAllocator)
      (data : List UInt8) : Reachable Start (e.processProposal g data).endpoint
  | processRequest {e : Endpoint} (h : Reachable Start e) (g : GroupAllocator)
      (data : List UInt8) : Reachable Start (e.processRequest g data).endpoint

/-- All that changes an endpoint keeps the property. -/
structure Kept (P : Endpoint → Prop) : Prop where
  bound : ∀ {e}, P e → ∀ g p, P (e.bound g p)
  altered : ∀ {e}, P e → ∀ p group, P (e.altered p group)
  assembly : ∀ {e}, P e → ∀ assembly, P { e with assembly }

namespace Kept

variable {P : Endpoint → Prop} (h : Kept P) (he : P e)
include h he

/-- One step: whatever is judged keeps the property. -/
theorem verdict (hverdict : Verdict e g data action e' g') : P e' := by
  cases hverdict with
  | refused => exact he
  | bound => exact h.bound he g _
  | altered => exact h.altered he _ _
  | request => exact h.assembly he _
  | other => exact h.assembly he _

theorem judgeBind (g : GroupAllocator) (p : Proposal) : P (e.judgeBind g p).2.1 := by
  by_cases hmajor : p.header.major = Header.version
  · rw [judgeBind_of_spoken hmajor]
    exact h.bound he g p
  · rw [judgeBind_of_foreign hmajor]
    exact he

theorem judgeAlterContext (p : Proposal) : P (e.judgeAlterContext p).2 := by
  cases hgroup : e.group with
  | none =>
    rw [judgeAlterContext_of_unbound hgroup]
    exact he
  | some group =>
    rw [judgeAlterContext_of_bound hgroup]
    exact h.altered he p group

theorem judgeRequest (r : Request) : P (e.judgeRequest r).2 := by
  rw [judgeRequest_endpoint]
  exact h.assembly he _

omit h in
theorem turn {judged : Except Error (Action × Endpoint × GroupAllocator)}
    (hjudged : ∀ verdict, judged = .ok verdict → P verdict.2.1) :
    P (e.turn g judged).endpoint := by
  unfold Endpoint.turn
  cases judged with
  | error err => exact he
  | ok verdict => exact hjudged verdict rfl

theorem process (g : GroupAllocator) (data : List UInt8) : P (e.process g data).endpoint :=
  turn he fun _ hjudge => h.verdict he (verdict_of_judge hjudge)

/-- Run: so does any number of units. -/
theorem after (items : List (GroupAllocator × List UInt8)) : P (e.after items) := by
  induction items generalizing e with
  | nil => exact he
  | cons item items ih => exact ih (h.process he item.1 item.2)

theorem processProposal (g : GroupAllocator) (data : List UInt8) :
    P (e.processProposal g data).endpoint := by
  refine turn he fun verdict hjudge => ?_
  obtain ⟨p, -, hp⟩ := bind_ok_iff.mp hjudge
  split at hp
  · cases hp
    exact h.judgeAlterContext he p
  · obtain rfl := Except.ok.inj hp
    exact h.judgeBind he g p

theorem processRequest (g : GroupAllocator) (data : List UInt8) :
    P (e.processRequest g data).endpoint := by
  refine turn he fun verdict hjudge => ?_
  obtain ⟨r, -, hr⟩ := bind_ok_iff.mp hjudge
  cases hr
  exact h.judgeRequest he r

omit he in
/-- Run: a property of all start states is one of all states that they lead to. -/
theorem reachable {Start : Endpoint → Prop} (hstart : ∀ e, Start e → P e)
    (hreachable : Reachable Start e) : P e := by
  induction hreachable with
  | start he => exact hstart _ he
  | process _ g data ih => exact h.process ih g data
  | processProposal _ g data ih => exact h.processProposal ih g data
  | processRequest _ g data ih => exact h.processRequest ih g data

end Kept

end Endpoint

end RemoteCall
