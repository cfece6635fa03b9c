import RemoteCall.Proofs.Endpoint.Requests
import RemoteCall.Proofs.Endpoint.Sending
import RemoteCall.Proofs.Endpoint.Sharing

/-! The group and the fragment sizes of an association are those of the bind that started it
(`Sharing.parameters_after`). No other unit has a say in them, and only a bind that asks for a group
takes a number from the allocator. -/

namespace RemoteCall

/-- What both sides know of an association, besides its contexts. -/
structure Parameters where
  group : UInt32
  maxTransmit : UInt16
  maxReceive : UInt16

namespace Acknowledgement

def parameters (a : Acknowledgement) : Parameters := ⟨a.group, a.maxTransmit, a.maxReceive⟩

/-- The acknowledgement gives the client what it asks for in its bind: sizes that both sides can
do with, and its own group or the next one of the allocator. -/
structure Grants (a : Acknowledgement) (g : GroupAllocator) (p : Proposal) : Prop where
  maxTransmit : a.maxTransmit = max p.maxReceive minFragment
  maxReceive : a.maxReceive = max p.maxTransmit minFragment
  group : a.group = if p.group = 0 then g.allocate.1 else p.group
  nonzero : a.group ≠ 0

end Acknowledgement

/-- The endpoint is in an association with these parameters. -/
structure Endpoint.HasParameters (e : Endpoint) (ps : Parameters) : Prop where
  group : e.group = some ps.group
  maxTransmit : e.maxTransmit = ps.maxTransmit
  maxReceive : e.maxReceive = ps.maxReceive

/-- The answer is one unit, which is read as this one. -/
def Turn.RepliesWith (t : Turn) (u : Pdu) : Prop :=
  ∃ b, t.answers = .ok [b] ∧ Pdu.decode b = .ok u

/-- The answer is a bind_nak for the version. -/
def Turn.RefusesVersion (t : Turn) (callId : UInt32) : Prop :=
  ∃ nak, t.RepliesWith (.bindNak nak) ∧ nak.header.callId = callId ∧
    nak.reason = RefusalReason.protocolVersionNotSupported.code

/-- The answer is a fault with that status. -/
def Turn.Faults (t : Turn) (callId : UInt32) (status : FaultStatus) : Prop :=
  ∃ f, t.RepliesWith (.fault f) ∧ f.header.callId = callId ∧ f.Tells status

/-- The exchange is part of an association with these parameters: it leaves them as they are, and
its client is told them again whenever it alters the contexts. -/
structure Exchange.Within (x : Exchange) (ps : Parameters) : Prop where
  endpoint : x.turn.endpoint.HasParameters ps
  acknowledged : ∀ p, Pdu.decode x.data = .ok (.alterContext p) →
    p.header.major = Header.version → ∃ a, x.turn.RepliesWith (.alterContextResponse a)
  repeated : ∀ bs, x.turn.answers = .ok bs → ∀ b ∈ bs, ∀ a,
    Pdu.decode b = .ok (.alterContextResponse a) → a.parameters = ps ∧ a.address = ""

/-! ## Numbers of groups -/

/-- A bind that starts an association in a new group. -/
def asksForGroup (data : List UInt8) : Bool :=
  match Pdu.decode data with
  | .ok (.bind p) => p.header.major == Header.version && p.group == 0
  | _ => false

namespace GroupAllocator

/-- No allocator has 0 as its next number, whether it is new or has handed out numbers. -/
theorem startingAt_next (first : UInt32) : (startingAt first).next ≠ 0 := by
  unfold startingAt
  dsimp only
  split
  · decide
  · assumption

/-- The allocator once it has handed out `n` more numbers. -/
def advance (g : GroupAllocator) : Nat → GroupAllocator
  | 0 => g
  | n + 1 => g.allocate.2.advance n

theorem advance_next {g : GroupAllocator} (h : g.next ≠ 0) (n : Nat) : (g.advance n).next ≠ 0 := by
  induction n generalizing g with
  | zero => exact h
  | succ n ih => exact ih (startingAt_next _)

end GroupAllocator

namespace Acknowledgement

variable (g : GroupAllocator) (service : Option Service) (p : Proposal)

theorem ofBind_group :
    (ofBind g service p).1.group = if p.group = 0 then g.allocate.1 else p.group := by
  unfold ofBind
  by_cases hzero : p.group = 0
  · rw [if_pos hzero, if_pos hzero]
    rfl
  · rw [if_neg hzero, if_neg hzero]
    rfl

theorem ofBind_groups : (ofBind g service p).2 = if p.group = 0 then g.allocate.2 else g := by
  unfold ofBind
  by_cases hzero : p.group = 0
  · rw [if_pos hzero, if_pos hzero]
  · rw [if_neg hzero, if_neg hzero]

end Acknowledgement

theorem asksForGroup_of_bind {data : List UInt8} {p : Proposal}
    (hdecode : Pdu.decode data = .ok (.bind p)) (hmajor : p.header.major = Header.version) :
    asksForGroup data = (p.group == 0) := by
  unfold asksForGroup
  rw [hdecode]
  dsimp only
  rw [hmajor, beq_self_eq_true, Bool.true_and]

theorem asksForGroup_of_not_isBind {data : List UInt8} (h : ¬ IsBind data) :
    asksForGroup data = false := by
  unfold asksForGroup
  split
  · rename_i p hdecode
    rw [Bool.and_eq_false_iff]
    exact .inl (beq_eq_false_iff_ne.mpr fun hmajor => h ⟨p, hdecode, hmajor⟩)
  · rfl

namespace Endpoint

variable {e e' : Endpoint} {g g' : GroupAllocator} {data : List UInt8} {action : Action}
  {p : Proposal} {ps : Parameters}

/-! ## One unit -/

theorem not_isBind_of_judge_error {err : Error} (hjudge : e.judge g data = .error err) :
    ¬ IsBind data := by
  rintro ⟨p, hdecode, -⟩
  rw [judge_of_decode hdecode] at hjudge
  cases hjudge

theorem Verdict.groups (h : Verdict e g data action e' g') :
    g' = if asksForGroup data then g.allocate.2 else g := by
  have hother : ¬ IsBind data → g = if asksForGroup data then g.allocate.2 else g := by
    intro hbind
    rw [asksForGroup_of_not_isBind hbind, if_neg Bool.false_ne_true]
  cases h with
  | refused _ hbind => exact hother hbind
  | @bound p hdecode hmajor =>
    simp only [Acknowledgement.ofBind_groups, asksForGroup_of_bind hdecode hmajor, beq_iff_eq]
  | altered hdecode => exact hother (not_isBind_of_decode hdecode fun _ hu => nomatch hu)
  | request hdecode => exact hother (not_isBind_of_decode hdecode fun _ hu => nomatch hu)
  | other hdecode => exact hother (not_isBind_of_decode hdecode fun _ hu => nomatch hu)

/-- One step of the allocator. -/
theorem process_groups (e : Endpoint) (g : GroupAllocator) (data : List UInt8) :
    (e.process g data).groups = if asksForGroup data then g.allocate.2 else g := by
  cases hjudge : e.judge g data with
  | error err =>
    have hbind := not_isBind_of_judge_error hjudge
    rw [process_of_judge_error hjudge, asksForGroup_of_not_isBind hbind,
      if_neg Bool.false_ne_true]
  | ok judged =>
    obtain ⟨action, e', g'⟩ := judged
    rw [process_of_judge hjudge]
    exact (verdict_of_judge hjudge).groups

/-- A reply that can be written is what is sent, but for the lengths in its header. -/
theorem process_reply {u : Pdu} (hjudge : e.judge g data = .ok (.reply u, e', g'))
    (hu : ∃ b, u.Written b) :
    ∃ u', u.SameContent u' ∧ (e.process g data).RepliesWith u' ∧
      (e.process g data).endpoint = e' ∧ (e.process g data).groups = g' := by
  obtain ⟨b, hb⟩ := hu
  obtain ⟨u', hread, hsame⟩ := hb.decode_same
  rw [process_of_judge hjudge, Action.perform_reply hb]
  exact ⟨u', hsame, ⟨b, rfl, hread⟩, rfl, rfl⟩

/-- A bind is acknowledged with what it is granted, and that is what the endpoint keeps. -/
theorem process_bind_parameters (h : e.Sound) (hg : g.next ≠ 0)
    (hdecode : Pdu.decode data = .ok (.bind p)) (hmajor : p.header.major = Header.version) :
    ∃ ack, (e.process g data).RepliesWith (.bindAck ack) ∧ ack.Grants g p ∧
      (e.process g data).endpoint.HasParameters ack.parameters := by
  obtain ⟨_, ⟨fragmentLength, authLength, rfl⟩, hreply, hendpoint, -⟩ :=
    process_reply (judge_of_bind hdecode hmajor) (h.bindAck_written hdecode)
  have hgroup : (e.bindAck g p).group = if p.group = 0 then g.allocate.1 else p.group :=
    Acknowledgement.ofBind_group g _ p
  have hnonzero : (e.bindAck g p).group ≠ 0 := by
    rw [hgroup]
    split
    · exact hg
    · assumption
  rw [hendpoint]
  exact ⟨_, hreply, ⟨rfl, rfl, hgroup, hnonzero⟩, ⟨rfl, rfl, rfl⟩⟩

/-- Any other unit leaves the group and the sizes as they are. -/
theorem process_parameters (hdata : ¬ IsBind data) (g : GroupAllocator) :
    let e' := (e.process g data).endpoint
    e'.group = e.group ∧ e'.maxTransmit = e.maxTransmit ∧ e'.maxReceive = e.maxReceive := by
  cases hjudge : e.judge g data with
  | error err =>
    rw [process_of_judge_error hjudge]
    exact ⟨rfl, rfl, rfl⟩
  | ok judged =>
    obtain ⟨action, e', g'⟩ := judged
    rw [process_of_judge hjudge]
    cases verdict_of_judge hjudge with
    | bound hdecode hmajor => exact absurd ⟨_, hdecode, hmajor⟩ hdata
    | _ => exact ⟨rfl, rfl, rfl⟩

theorem HasParameters.process (h : e.HasParameters ps) (hdata : ¬ IsBind data)
    (g : GroupAllocator) : (e.process g data).endpoint.HasParameters ps := by
  obtain ⟨hgroup, htransmit, hreceive⟩ := process_parameters (e := e) hdata g
  exact ⟨hgroup.trans h.group, htransmit.trans h.maxTransmit, hreceive.trans h.maxReceive⟩

/-- Run: without a bind, an endpoint stays without an association. -/
theorem group_after (hgroup : e.group = none) {items : List (GroupAllocator × List UInt8)}
    (hitems : ∀ item ∈ items, ¬ IsBind item.2) : (e.after items).group = none := by
  induction items generalizing e with
  | nil => exact hgroup
  | cons item items ih =>
    obtain ⟨hitem, hitems⟩ := List.forall_mem_cons.mp hitems
    obtain ⟨hstep, -, -⟩ := process_parameters (e := e) hitem item.1
    exact ih (hstep.trans hgroup) hitems

theorem Fresh.group (h : e.Fresh) : e.group = none := by
  cases h <;> rfl

/-- Only an alter_context is answered by an alter_context_resp, which tells the parameters. -/
theorem HasParameters.repeated (h : e.HasParameters ps)
    (hverdict : Verdict e g data action e' g') {maxTransmit : UInt16} {b : List UInt8}
    {a : Acknowledgement} (hsends : action.Sends maxTransmit (.alterContextResponse a) b) :
    a.parameters = ps ∧ a.address = "" := by
  obtain rfl : action = .reply (.alterContextResponse a) := by
    cases hsends
    rfl
  -- Of all verdicts, only the one on an alter_context within an association replies so.
  generalize haction : Action.reply (.alterContextResponse a) = action at hverdict
  cases hverdict with
  | refused hunit =>
    cases haction
    cases hunit
  | bound => cases haction
  | @altered p group _ _ hgroup =>
    cases haction
    obtain rfl : ps.group = group := Option.some.inj (h.group.symm.trans hgroup)
    refine ⟨?_, rfl⟩
    change Parameters.mk ps.group e.maxTransmit e.maxReceive = ps
    rw [h.maxTransmit, h.maxReceive]
  | request => cases judgeRequest_refuses haction.symm
  | other => cases haction

/-- An alter_context within an association is acknowledged. -/
theorem replies_alterContext {group : UInt32} (hgroup : e.group = some group) (g : GroupAllocator)
    (hdecode : Pdu.decode data = .ok (.alterContext p)) (hmajor : p.header.major = Header.version) :
    ∃ a, (e.process g data).RepliesWith (.alterContextResponse a) := by
  have hjudge : e.judge g data = .ok ((e.judgeAlterContext p).1, (e.judgeAlterContext p).2, g) :=
    judge_of_spoken hdecode hmajor
  rw [judgeAlterContext_of_bound hgroup] at hjudge
  obtain ⟨_, ⟨fragmentLength, authLength, rfl⟩, hreply, -, -⟩ :=
    process_reply hjudge (alterAck_written group hdecode)
  exact ⟨_, hreply⟩

/-- One step within an association. -/
theorem HasParameters.within (h : e.HasParameters ps) (hdata : ¬ IsBind data)
    (g : GroupAllocator) : Exchange.Within ⟨data, e.process g data⟩ ps := by
  refine ⟨h.process hdata g, fun p => replies_alterContext h.group g, ?_⟩
  intro bs hbs b hb a hread
  obtain ⟨action, hverdict, hsends⟩ := sends_of_process hbs
  obtain ⟨u, hu⟩ := hsends b hb
  obtain ⟨_, hdecode, fragmentLength, authLength, rfl⟩ := hu.written.decode_same
  rw [hread, Except.ok.injEq] at hdecode
  cases u <;> cases hdecode
  obtain ⟨hparameters, haddress⟩ := h.repeated hverdict hu
  exact ⟨hparameters, haddress⟩

/-- Run: until the next bind, all exchanges are within the association. -/
theorem HasParameters.run (h : e.HasParameters ps) {items : List (GroupAllocator × List UInt8)}
    (hitems : ∀ item ∈ items, ¬ IsBind item.2) :
    (e.after items).HasParameters ps ∧ ∀ x ∈ e.exchanges items, x.Within ps := by
  induction items generalizing e with
  | nil => exact ⟨h, List.forall_mem_nil _⟩
  | cons item items ih =>
    obtain ⟨hitem, hitems⟩ := List.forall_mem_cons.mp hitems
    have hstep := h.within hitem item.1
    obtain ⟨hafter, hrest⟩ := ih hstep.endpoint hitems
    exact ⟨hafter, List.forall_mem_cons.mpr ⟨hstep, hrest⟩⟩

/-! ## Refused proposals -/

/-- A bind of another version is refused, and changes nothing. -/
theorem process_foreign_bind (e : Endpoint) (g : GroupAllocator)
    (hdecode : Pdu.decode data = .ok (.bind p)) (hmajor : p.header.major ≠ Header.version) :
    (e.process g data).RefusesVersion p.header.callId ∧
      (e.process g data).endpoint = e ∧ (e.process g data).groups = g := by
  have hjudge : e.judge g data = .ok (e.judgeBind g p) := by
    have hkind : (Pdu.bind p).header.kind = .bind := by
      obtain ⟨-, hmem⟩ := Pdu.parse_of_decode hdecode
      exact List.mem_singleton.mp hmem
    rw [judge_of_decode hdecode, hkind, bne_self_eq_false, Bool.and_false,
      if_neg Bool.false_ne_true]
    rfl
  rw [judgeBind_of_foreign hmajor] at hjudge
  obtain ⟨_, ⟨fragmentLength, authLength, rfl⟩, hreply, hkept⟩ := process_reply hjudge
    (Pdu.Refuses.bindNak p.header.callId .protocolVersionNotSupported).written
  exact ⟨⟨_, hreply, rfl, rfl⟩, hkept⟩

theorem judge_alterContext_of_unbound (hgroup : e.group = none) {h : Header}
    (hparse : Header.parse data = .ok h) (hkind : h.kind = .alterContext)
    (hdata : ¬ Undecodable data) : e.judge g data = .ok (.protocolFault h.callId 0, e, g) := by
  by_cases hmajor : h.major = Header.version
  · cases hdecode : Pdu.decode data with
    | error err => exact absurd (.body hparse (.inl hmajor) hdecode) hdata
    | ok u =>
      obtain ⟨hparse', hmem⟩ := Pdu.parse_of_decode hdecode
      obtain rfl : h = u.header := Except.ok.inj (hparse.symm.trans hparse')
      rw [judge_of_spoken hdecode hmajor]
      rw [hkind] at hmem
      cases u with
      | alterContext p => simp only [judgePdu, judgeAlterContext_of_unbound hgroup, Pdu.header]
      | _ => simp only [Pdu.kinds, List.mem_cons, List.not_mem_nil, reduceCtorEq, or_self] at hmem
  · have hbind : h.kind ≠ .bind := by
      rw [hkind]
      decide
    unfold judge
    rw [hparse, ok_bind, bne_iff_ne.mpr hmajor, bne_iff_ne.mpr hbind, Bool.and_self, if_pos rfl]
    rfl

/-- Without an association, an alter_context of any version is refused, and changes nothing. -/
theorem process_alterContext_of_unbound (hgroup : e.group = none) (g : GroupAllocator)
    {h : Header} (hparse : Header.parse data = .ok h) (hkind : h.kind = .alterContext)
    (hdata : ¬ Undecodable data) :
    (e.process g data).Faults h.callId .protocolError ∧
      (e.process g data).endpoint = e ∧ (e.process g data).groups = g := by
  have hjudge := judge_alterContext_of_unbound (g := g) hgroup hparse hkind hdata
  obtain ⟨_, ⟨fragmentLength, authLength, rfl⟩, hreply, hkept⟩ :=
    process_reply hjudge (Pdu.Refuses.fault h.callId 0 .protocolError).written
  have hflags : let flags := Flags.complete.union .didNotExecute
      flags.isFirst = true ∧ flags.isLast = true ∧ flags.has .didNotExecute = true := by decide
  obtain ⟨hfirst, hlast, hnot⟩ := hflags
  exact ⟨⟨_, hreply, rfl, hfirst, hlast, hnot, rfl⟩, hkept⟩

end Endpoint

/-! ## Any run -/

namespace Sharing

variable {ι : Type} [DecidableEq ι] {s : Sharing ι} {i : ι} {data : List UInt8}

theorem after_groups (s : Sharing ι) (items : List (ι × List UInt8)) :
    (s.after items).groups =
      s.groups.advance (items.countP fun item => asksForGroup item.2) := by
  induction items generalizing s with
  | nil => rfl
  | cons item items ih =>
    obtain ⟨i, data⟩ := item
    have hstep : (s.step i data).groups =
        if asksForGroup data then s.groups.allocate.2 else s.groups :=
      Endpoint.process_groups _ _ _
    rw [after, ih, hstep, List.countP_cons]
    cases asksForGroup data <;> rfl

/-- What changes nothing for its endpoint and takes no number changes nothing at all. -/
theorem step_eq_self (hendpoint : (s.turn i data).endpoint = s.endpoints i)
    (hgroups : (s.turn i data).groups = s.groups) : s.step i data = s := by
  unfold step
  rw [hendpoint, hgroups, Function.update_eq_self]

/-- The units that an endpoint sees are its own ones. -/
theorem forall_seen {P : List UInt8 → Prop} {items : List (ι × List UInt8)}
    (h : ∀ d ∈ own i items, P d) (s : Sharing ι) : ∀ item ∈ s.seen i items, P item.2 := by
  intro item hitem
  refine h item.2 ?_
  rw [← s.map_seen]
  exact List.mem_map_of_mem hitem

/-- **The parameters of an association are fixed by its bind.** In every run of new endpoints that
share an allocator, a bind is acknowledged with the parameters that it is granted, and until the
next one these are the parameters of its endpoint, and every alter_context_resp repeats them. The
allocator advances for the binds that ask for a group, and for nothing else. A bind of another
version is refused, and so is every alter_context before the first bind; neither changes
anything. -/
theorem parameters_after (hfresh : ∀ i, (s.endpoints i).Fresh) (hgroups : s.groups.next ≠ 0)
    (before : List (ι × List UInt8)) (i : ι) (data : List UInt8) :
    let now := s.after before
    now.groups = s.groups.advance (before.countP fun item => asksForGroup item.2) ∧
    (∀ p, Pdu.decode data = .ok (.bind p) → p.header.major = Header.version →
      ∃ ack, (now.turn i data).RepliesWith (.bindAck ack) ∧ ack.Grants now.groups p ∧
        ∀ later, (∀ d ∈ own i later, ¬ IsBind d) →
          (((now.step i data).after later).endpoints i).HasParameters ack.parameters ∧
          ∀ x ∈ own i ((now.step i data).exchanges later), x.Within ack.parameters) ∧
    (∀ p, Pdu.decode data = .ok (.bind p) → p.header.major ≠ Header.version →
      (now.turn i data).RefusesVersion p.header.callId ∧ now.step i data = now) ∧
    ((∀ d ∈ own i before, ¬ IsBind d) → ∀ h, Header.parse data = .ok h →
      h.kind = .alterContext → ¬ Endpoint.Undecodable data →
      (now.turn i data).Faults h.callId .protocolError ∧ now.step i data = now) := by
  intro now
  have hallocated : now.groups =
      s.groups.advance (before.countP fun item => asksForGroup item.2) := s.after_groups before
  obtain ⟨-, hbefore⟩ := s.own_exchanges (i := i) before
  refine ⟨hallocated, ?_, ?_, ?_⟩
  · intro p hdecode hmajor
    have hsound : (now.endpoints i).Sound := by
      rw [hbefore]
      exact Endpoint.Sound.kept.after (hfresh i).sound _
    have hnext : now.groups.next ≠ 0 := by
      rw [hallocated]
      exact GroupAllocator.advance_next hgroups _
    obtain ⟨ack, hreply, hgrants, hparameters⟩ :=
      Endpoint.process_bind_parameters hsound hnext hdecode hmajor
    refine ⟨ack, hreply, hgrants, fun later hlater => ?_⟩
    obtain ⟨hexchanges, hafter⟩ := (now.step i data).own_exchanges (i := i) later
    rw [hexchanges, hafter, step_endpoints_self]
    exact hparameters.run (forall_seen hlater _)
  · intro p hdecode hmajor
    obtain ⟨hrefused, hendpoint, hgroups⟩ :=
      (now.endpoints i).process_foreign_bind now.groups hdecode hmajor
    exact ⟨hrefused, step_eq_self hendpoint hgroups⟩
  · intro hunbound h hparse hkind hdata
    have hgroup : (now.endpoints i).group = none := by
      rw [hbefore]
      exact Endpoint.group_after (hfresh i).group (forall_seen hunbound s)
    obtain ⟨hfault, hendpoint, hgroups⟩ :=
      Endpoint.process_alterContext_of_unbound hgroup now.groups hparse hkind hdata
    exact ⟨hfault, step_eq_self hendpoint hgroups⟩

/-- Two clients bind one after the other, and the first one then calls. -/
def sampleTraffic : List (Bool × List UInt8) :=
  [(false, Endpoint.sampleBind 0 Endpoint.bareService), (true, Endpoint.sampleCall)]

/-- Each of them has its own group, and the allocator has handed out two. -/
theorem parameters_after_sampleTraffic :
    ∃ ack later, (twoEndpoints.turn true (Endpoint.sampleBind 0 Endpoint.bareService)).RepliesWith
        (.bindAck ack) ∧ ack.group = 1 ∧ ack.maxTransmit = 4280 ∧
      later = (twoEndpoints.step true
        (Endpoint.sampleBind 0 Endpoint.bareService)).after sampleTraffic ∧
      (later.endpoints true).HasParameters ack.parameters ∧ later.groups = ⟨3⟩ := by
  have hname : Endpoint.bareService.Announceable := by
    unfold Service.Announceable
    decide
  have hfresh : ∀ i, (twoEndpoints.endpoints i).Fresh := fun _ => .ofService hname
  have hgroups : twoEndpoints.groups.next ≠ 0 := by decide
  have hbinds : ∀ d ∈ own true sampleTraffic, ¬ IsBind d := by
    have hdecode : ∃ r, Pdu.decode Endpoint.sampleCall = .ok (.request r) := ⟨_, rfl⟩
    obtain ⟨r, hr⟩ := hdecode
    exact List.forall_mem_singleton.mpr (Endpoint.not_isBind_of_decode hr fun _ hu => nomatch hu)
  obtain ⟨-, hbind, -⟩ := parameters_after hfresh hgroups [] true
    (Endpoint.sampleBind 0 Endpoint.bareService)
  obtain ⟨ack, hreply, hgrants, hlater⟩ := hbind _ rfl rfl
  obtain ⟨hparameters, -⟩ := hlater sampleTraffic hbinds
  exact ⟨ack, _, hreply, hgrants.group, hgrants.maxTransmit, rfl, hparameters, rfl⟩

end Sharing

end RemoteCall
