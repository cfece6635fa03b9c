import Mathlib.Logic.Function.Basic
import RemoteCall.Proofs.Endpoint.Contexts

/-! Endpoints that take the numbers of their groups from one allocator do not interfere
(`Sharing.exchanges_alone`). Such a number is all that an endpoint gets from outside, and no decision
depends on it: it is kept as the group, and it fills four bytes of each acknowledgement. -/

namespace RemoteCall

/-! ## The group in an acknowledgement -/

/-- Whatever the group, an acknowledgement is written with the same bytes around it, or it cannot be
written for the same reason. -/
theorem Acknowledgement.encode_of_group (a : Acknowledgement) :
    (∃ err, ∀ group, encode { a with group } = .error err) ∨
      ∃ front rest : List UInt8, front.length = 20 ∧ ∀ group,
        encode { a with group } =
          .ok (front ++ a.header.representation.order.word32 group ++ rest) := by
  simp only [encode, assemble]
  cases hcount : byteCount a.answers.length (.resultCount a.answers.length) with
  | error err => exact .inl ⟨err, fun _ => rfl⟩
  | ok count =>
    cases hlabel : Label.ofRepresentation a.header.representation with
    | error err => exact .inl ⟨err, fun _ => rfl⟩
    | ok l =>
      rw [← Label.integers_eq_order hlabel]
      simp only [ok_bind]
      cases haddress : addressField l.integers a.address with
      | error err => exact .inl ⟨err, fun _ => rfl⟩
      | ok address =>
        -- The lengths that are checked do not depend on the group.
        simp only [ok_bind, pure, Except.pure, List.length_append, ByteOrder.length_word16,
          ByteOrder.length_word32, List.append_assoc]
        split
        · exact .inl ⟨_, fun _ => rfl⟩
        · split
          · exact .inl ⟨_, fun _ => rfl⟩
          · have hcut : ∀ h x y group r : List UInt8,
                h ++ (x ++ (y ++ (group ++ r))) = (h ++ (x ++ y)) ++ (group ++ r) := by simp
            refine .inr ⟨_, _, ?_, fun group => congrArg Except.ok (hcut _ _ _ _ _)⟩
            simp [Header.size]

/-! ## Endpoints with different groups -/

/-- The group of an endpoint is one that it was given: the latest bind asked for a new one. -/
def GroupGiven (units : List (List UInt8)) : Prop :=
  ∃ before bind later p, units = before ++ bind :: later ∧ Pdu.decode bind = .ok (.bind p) ∧
    p.header.major = Header.version ∧ p.group = 0 ∧ ∀ data ∈ later, ¬ IsBind data

theorem groupGiven_of_bind {data : List UInt8} {p : Proposal} (past : List (List UInt8))
    (hdecode : Pdu.decode data = .ok (.bind p)) (hmajor : p.header.major = Header.version)
    (hzero : p.group = 0) : GroupGiven (past ++ [data]) :=
  ⟨past, data, [], p, rfl, hdecode, hmajor, hzero, List.forall_mem_nil _⟩

theorem GroupGiven.concat {past : List (List UInt8)} {data : List UInt8} (h : GroupGiven past)
    (hdata : ¬ IsBind data) : GroupGiven (past ++ [data]) := by
  obtain ⟨before, bind, later, p, rfl, hdecode, hmajor, hzero, hlater⟩ := h
  refine ⟨before, bind, later ++ [data], p, ?_, hdecode, hmajor, hzero, ?_⟩
  · rw [List.append_assoc, List.cons_append]
  · exact List.forall_mem_append.mpr ⟨hlater, List.forall_mem_singleton.mpr hdata⟩

/-- The endpoints are the same but for the groups that they were given. -/
structure Endpoint.Alike (given : Prop) (e e' : Endpoint) : Prop where
  same : e' = { e with group := e'.group }
  isBound : e'.isBound = e.isBound
  group : ¬ given → e'.group = e.group

/-- The answers are the same, or they are one acknowledgement each, with the same bytes but for the
groups that were given. -/
inductive AlikeAnswers (given : Prop) (e e' : Endpoint) :
    (answers answers' : Except Error (List (List UInt8))) → Prop
  | same (answers : Except Error (List (List UInt8))) : AlikeAnswers given e e' answers answers
  | acknowledged {ack : Acknowledgement} {unit : Acknowledgement → Pdu} {group group' : UInt32}
      {front rest : List UInt8} (hgiven : given)
      (hgroup : e.group = some group) (hgroup' : e'.group = some group')
      (hunit : unit = .bindAck ∨ unit = .alterContextResponse) (hfront : front.length = 20)
      (hencode : ∀ group, (unit { ack with group }).encode =
        .ok (front ++ ByteOrder.little.word32 group ++ rest)) :
    AlikeAnswers given e e' (.ok [front ++ ByteOrder.little.word32 group ++ rest])
      (.ok [front ++ ByteOrder.little.word32 group' ++ rest])

/-- The same came of a unit in both runs, but for the groups that were given. -/
structure Turn.Alike (given : Prop) (t t' : Turn) : Prop where
  endpoint : t.endpoint.Alike given t'.endpoint
  answers : AlikeAnswers given t.endpoint t'.endpoint t.answers t'.answers

/-! ## One unit -/

namespace Endpoint

section Unit

variable {given : Prop} {e e' e₁ e₁' : Endpoint} {g g' g₁ g₁' : GroupAllocator}
  {data : List UInt8} {past : List (List UInt8)} {p : Proposal} {action : Action}

theorem Alike.refl (e : Endpoint) : e.Alike given e := ⟨rfl, rfl, fun _ => rfl⟩

theorem Alike.exists_group (h : e.Alike given e') : ∃ group, e' = { e with group } ∧
    ({ e with group } : Endpoint).isBound = e.isBound ∧ (¬ given → group = e.group) := by
  obtain ⟨hsame, hbound, hgroup⟩ := h
  rw [hsame] at hbound
  exact ⟨e'.group, hsame, hbound, hgroup⟩

/-- A unit that does not bind leaves it open who was given a group. -/
theorem Alike.concat (h : e.Alike (GroupGiven past) e') (hdata : ¬ IsBind data) :
    e.Alike (GroupGiven (past ++ [data])) e' :=
  ⟨h.same, h.isBound, fun hnot => h.group fun hgiven => hnot (hgiven.concat hdata)⟩

/-- Two endpoints that are alike act alike when they decide on the same action. -/
theorem Alike.turn (h : e₁.Alike given e₁') (hjudge : e.judge g data = .ok (action, e₁, g₁))
    (hjudge' : e'.judge g' data = .ok (action, e₁', g₁')) :
    (e.process g data).Alike given (e'.process g' data) := by
  have hmax : e₁'.maxTransmit = e₁.maxTransmit := by rw [h.same]
  rw [process_of_judge hjudge, process_of_judge hjudge', hmax]
  exact ⟨h, .same _⟩

/-- So they do when both acknowledge a proposal, each with its own group. -/
theorem Alike.turn_of_ack (h : e₁.Alike given e₁') {ack : Acknowledgement}
    {unit : Acknowledgement → Pdu} {group' : UInt32}
    (hunit : unit = .bindAck ∨ unit = .alterContextResponse)
    (hstandard : ack.header.representation = .standard)
    (hgroup : e₁.group = some ack.group) (hgroup' : e₁'.group = some group')
    (hjudge : e.judge g data = .ok (.reply (unit ack), e₁, g₁))
    (hjudge' : e'.judge g' data = .ok (.reply (unit { ack with group := group' }), e₁', g₁')) :
    (e.process g data).Alike given (e'.process g' data) := by
  have hsame : ¬ given → group' = ack.group := by
    intro hnot
    rw [← Option.some_inj, ← hgroup, ← hgroup', h.group hnot]
  have hencode : ∀ ack, (unit ack).encode = ack.encode := by
    rcases hunit with rfl | rfl <;> exact fun _ => rfl
  rw [process_of_judge hjudge, process_of_judge hjudge']
  refine ⟨h, ?_⟩
  rcases ack.encode_of_group with ⟨err, herr⟩ | ⟨front, rest, hfront, hok⟩
  · have herr₁ : ack.encode = .error err := herr ack.group
    simp only [Action.perform, hencode, herr₁, herr]
    exact .same _
  · rw [hstandard] at hok
    have hok₁ : ack.encode = .ok (front ++ ByteOrder.little.word32 ack.group ++ rest) :=
      hok ack.group
    simp only [Action.perform, hencode, hok₁, hok, ok_bind]
    by_cases hgiven : given
    · exact .acknowledged hgiven hgroup hgroup' hunit hfront fun _ => (hencode _).trans (hok _)
    · rw [hsame hgiven]
      exact .same _

theorem Alike.bound (h : e.Alike given e') (g g' : GroupAllocator) (p : Proposal) :
    (e.bound g p).Alike (p.group = 0) (e'.bound g' p) := by
  obtain ⟨group, rfl, -, -⟩ := h.exists_group
  refine ⟨rfl, rfl, fun hnonzero => ?_⟩
  have hkept : ∀ (e : Endpoint) (g : GroupAllocator), (e.bindAck g p).group = p.group := by
    intro e g
    unfold bindAck Acknowledgement.ofBind
    rw [if_neg hnonzero]
    rfl
  exact congrArg some ((hkept _ g').trans (hkept e g).symm)

theorem Alike.bindAck (h : e.Alike given e') (g g' : GroupAllocator) (p : Proposal) :
    e'.bindAck g' p = { e.bindAck g p with group := (e'.bindAck g' p).group } := by
  obtain ⟨group, rfl, -, -⟩ := h.exists_group
  rfl

theorem Alike.altered (h : e.Alike given e') (p : Proposal) (group group' : UInt32) :
    (e.altered p group).Alike given (e'.altered p group') := by
  obtain ⟨group, rfl, hbound, hgroup⟩ := h.exists_group
  exact ⟨rfl, hbound, hgroup⟩

theorem Alike.alterAck (h : e.Alike given e') (p : Proposal) (group group' : UInt32) :
    e'.alterAck p group' = { e.alterAck p group with group := group' } := by
  obtain ⟨group, rfl, -, -⟩ := h.exists_group
  rfl

theorem Alike.withAssembly (h : e.Alike given e') (assembly : Assembly) :
    ({ e with assembly } : Endpoint).Alike given { e' with assembly } := by
  obtain ⟨group, rfl, hbound, hgroup⟩ := h.exists_group
  exact ⟨rfl, hbound, hgroup⟩

theorem Alike.judgeRequest (h : e.Alike given e') (r : Request) :
    (e'.judgeRequest r).1 = (e.judgeRequest r).1 ∧
      (e.judgeRequest r).2.Alike given (e'.judgeRequest r).2 := by
  have hassembly : e'.assembly = e.assembly := by rw [h.same]
  have hservice : e'.service = e.service := by rw [h.same]
  have hcontexts : e'.contexts = e.contexts := by rw [h.same]
  refine ⟨?_, ?_⟩
  · simp only [judgeRequest_action, acceptedContext?, hassembly, hservice, hcontexts]
  · rw [judgeRequest_endpoint, judgeRequest_endpoint, hassembly]
    exact h.withAssembly _

theorem Alike.judgeOther (h : e.Alike given e') (header : Header) :
    (e'.judgeOther header).1 = (e.judgeOther header).1 ∧
      (e.judgeOther header).2.Alike given (e'.judgeOther header).2 := by
  unfold Endpoint.judgeOther
  split
  · exact ⟨rfl, h.withAssembly _⟩
  · exact ⟨rfl, h⟩

/-- A bind gives both endpoints a group of its own, or the same one. -/
theorem Alike.process_bind (h : e.Alike (GroupGiven past) e') (g g' : GroupAllocator)
    (hdecode : Pdu.decode data = .ok (.bind p)) (hmajor : p.header.major = Header.version) :
    (e.process g data).Alike (GroupGiven (past ++ [data])) (e'.process g' data) := by
  have hbound := h.bound g g' p
  have hgiven : p.group = 0 → GroupGiven (past ++ [data]) := groupGiven_of_bind past hdecode hmajor
  have hjudge' := judge_of_bind (e := e') (g := g') hdecode hmajor
  rw [h.bindAck g g' p] at hjudge'
  have hnext : (e.bound g p).Alike (GroupGiven (past ++ [data])) (e'.bound g' p) :=
    ⟨hbound.same, hbound.isBound, fun hnot => hbound.group fun hzero => hnot (hgiven hzero)⟩
  exact hnext.turn_of_ack (.inl rfl) rfl rfl rfl (judge_of_bind hdecode hmajor) hjudge'

/-- Both endpoints take up an alter_context, in their own groups, or both refuse it. -/
theorem Alike.process_alterContext (h : e.Alike given e') (g g' : GroupAllocator)
    (hdecode : Pdu.decode data = .ok (.alterContext p)) (hmajor : p.header.major = Header.version) :
    (e.process g data).Alike given (e'.process g' data) := by
  have hjudge : ∀ (e : Endpoint) (g : GroupAllocator), e.judge g data =
      .ok ((e.judgeAlterContext p).1, (e.judgeAlterContext p).2, g) :=
    fun _ _ => judge_of_spoken hdecode hmajor
  have hjudge₁ := hjudge e g
  have hjudge₂ := hjudge e' g'
  cases hgroup : e.group with
  | none =>
    have hgroup' : e'.group = none := by simpa [Endpoint.isBound, hgroup] using h.isBound
    rw [judgeAlterContext_of_unbound hgroup] at hjudge₁
    rw [judgeAlterContext_of_unbound hgroup'] at hjudge₂
    exact h.turn hjudge₁ hjudge₂
  | some group =>
    obtain ⟨group', hgroup'⟩ : ∃ group', e'.group = some group' := by
      simpa [Endpoint.isBound, hgroup, Option.isSome_iff_exists] using h.isBound
    rw [judgeAlterContext_of_bound hgroup] at hjudge₁
    rw [judgeAlterContext_of_bound hgroup'] at hjudge₂
    rw [h.alterAck p group group'] at hjudge₂
    have hgroup₁ : (e.altered p group).group = some (e.alterAck p group).group := hgroup
    exact (h.altered p group group').turn_of_ack (.inr rfl) rfl hgroup₁ hgroup' hjudge₁ hjudge₂

/-- One step: endpoints that are alike go on to be alike, whatever allocators they use. -/
theorem Alike.process (h : e.Alike (GroupGiven past) e') (g g' : GroupAllocator)
    (data : List UInt8) :
    (e.process g data).Alike (GroupGiven (past ++ [data])) (e'.process g' data) := by
  by_cases hspoken : IsSpoken data
  · obtain ⟨u, hdecode, hmajor⟩ := hspoken
    have hjudge := judge_of_spoken (e := e) (g := g) hdecode hmajor
    have hjudge' := judge_of_spoken (e := e') (g := g') hdecode hmajor
    by_cases hbind : IsBind data
    · obtain ⟨p, hp, hmajor⟩ := hbind
      exact h.process_bind g g' hp hmajor
    have hnext := h.concat hbind
    cases u with
    | bind p => exact absurd ⟨p, hdecode, hmajor⟩ hbind
    | alterContext p => exact hnext.process_alterContext g g' hdecode hmajor
    | request r =>
      obtain ⟨haction, hendpoint⟩ := hnext.judgeRequest r
      simp only [judgePdu, haction] at hjudge hjudge'
      exact hendpoint.turn hjudge hjudge'
    | other header body =>
      obtain ⟨haction, hendpoint⟩ := hnext.judgeOther header
      simp only [judgePdu, haction] at hjudge hjudge'
      exact hendpoint.turn hjudge hjudge'
    | _ => exact hnext.turn hjudge hjudge'
  · have hnext := h.concat fun hbind => hspoken hbind.isSpoken
    rcases judge_of_not_spoken hspoken with ⟨err, herr⟩ | ⟨unit, -, hrefused⟩
    · rw [process_of_judge_error (herr e g), process_of_judge_error (herr e' g')]
      exact ⟨hnext, .same _⟩
    · exact hnext.turn (hrefused e g) (hrefused e' g')

end Unit

/-! ## Several units -/

/-- The same came of the units in both runs, but for the groups that were given. -/
inductive AlikeRuns : List (List UInt8) → List Exchange → List Exchange → Prop
  | nil {past : List (List UInt8)} : AlikeRuns past [] []
  | cons {past : List (List UInt8)} {data : List UInt8} {t t' : Turn} {xs xs' : List Exchange}
      (hturn : t.Alike (GroupGiven (past ++ [data])) t')
      (hrest : AlikeRuns (past ++ [data]) xs xs') :
    AlikeRuns past (⟨data, t⟩ :: xs) (⟨data, t'⟩ :: xs')

/-- Run: the same units do the same to endpoints that are alike, whatever allocators come with
them. -/
theorem Alike.run {past : List (List UInt8)} {e e' : Endpoint} (h : e.Alike (GroupGiven past) e')
    {items items' : List (GroupAllocator × List UInt8)}
    (hsame : items'.map (·.2) = items.map (·.2)) :
    AlikeRuns past (e.exchanges items) (e'.exchanges items') ∧
      (e.after items).Alike (GroupGiven (past ++ items.map (·.2))) (e'.after items') := by
  induction items generalizing past e e' items' with
  | nil =>
    obtain rfl := List.map_eq_nil_iff.mp hsame
    rw [List.map_nil, List.append_nil]
    exact ⟨.nil, h⟩
  | cons item items ih =>
    obtain ⟨g, data⟩ := item
    obtain ⟨⟨g', data'⟩, items', rfl, rfl, hrest⟩ := List.map_eq_cons_iff.mp hsame
    have hstep := h.process g g' data'
    obtain ⟨hruns, hafter⟩ := ih hstep.endpoint hrest
    rw [List.append_assoc] at hafter
    exact ⟨.cons hstep hruns, hafter⟩

end Endpoint

/-! ## Sharing an allocator -/

/-- Endpoints that take the numbers of their groups from one allocator. -/
structure Sharing (ι : Type) where
  endpoints : ι → Endpoint
  groups : GroupAllocator

namespace Sharing

variable {ι : Type} [DecidableEq ι] {α : Type}

/-- What comes of a unit for one of the endpoints. -/
def turn (s : Sharing ι) (i : ι) (data : List UInt8) : Turn := (s.endpoints i).process s.groups data

/-- The endpoint has processed the unit. -/
def step (s : Sharing ι) (i : ι) (data : List UInt8) : Sharing ι where
  endpoints := Function.update s.endpoints i (s.turn i data).endpoint
  groups := (s.turn i data).groups

/-- What comes of units, each for one of the endpoints. -/
def exchanges (s : Sharing ι) : List (ι × List UInt8) → List (ι × Exchange)
  | [] => []
  | (i, data) :: items => (i, ⟨data, s.turn i data⟩) :: (s.step i data).exchanges items

def after (s : Sharing ι) : List (ι × List UInt8) → Sharing ι
  | [] => s
  | (i, data) :: items => (s.step i data).after items

/-- The part of one endpoint. -/
def own (i : ι) (xs : List (ι × α)) : List α := (xs.filter fun x => x.1 = i).map (·.2)

/-- The units of one endpoint, with the allocator as it is when they come. -/
def seen (i : ι) (s : Sharing ι) : List (ι × List UInt8) → List (GroupAllocator × List UInt8)
  | [] => []
  | (j, data) :: items =>
    if j = i then (s.groups, data) :: (s.step j data).seen i items else (s.step j data).seen i items

section Projection

variable {i j : ι} (s : Sharing ι)

@[simp] theorem own_cons (a : α) (xs : List (ι × α)) :
    own i ((j, a) :: xs) = if j = i then a :: own i xs else own i xs := by
  by_cases h : j = i <;> simp [own, h]

theorem own_filter (xs : List (ι × α)) : own i (xs.filter fun x => x.1 = i) = own i xs := by
  simp [own, List.filter_filter]

/-- One step for the endpoint that the unit is for. -/
@[simp] theorem step_endpoints_self (data : List UInt8) :
    (s.step i data).endpoints i = ((s.endpoints i).process s.groups data).endpoint :=
  Function.update_self ..

/-- It is no step for the others. -/
theorem step_endpoints_of_ne (data : List UInt8) (h : j ≠ i) :
    (s.step j data).endpoints i = s.endpoints i :=
  Function.update_of_ne h.symm ..

theorem map_seen (items : List (ι × List UInt8)) : (s.seen i items).map (·.2) = own i items := by
  induction items generalizing s with
  | nil => rfl
  | cons item items ih =>
    obtain ⟨j, data⟩ := item
    by_cases h : j = i <;> simp [seen, h, ih]

/-- Each endpoint runs by itself, on the allocators that it sees. -/
theorem own_exchanges (items : List (ι × List UInt8)) :
    own i (s.exchanges items) = (s.endpoints i).exchanges (s.seen i items) ∧
      (s.after items).endpoints i = (s.endpoints i).after (s.seen i items) := by
  induction items generalizing s with
  | nil => exact ⟨rfl, rfl⟩
  | cons item items ih =>
    obtain ⟨j, data⟩ := item
    obtain ⟨hexchanges, hafter⟩ := ih (s.step j data)
    by_cases h : j = i
    · subst h
      rw [step_endpoints_self] at hexchanges hafter
      simp [exchanges, seen, after, Endpoint.exchanges, Endpoint.after, turn, hexchanges, hafter]
    · rw [step_endpoints_of_ne s data h] at hexchanges hafter
      simp [exchanges, seen, after, h, hexchanges, hafter]

end Projection

/-- **Endpoints do not interfere.** Whatever units come to any number of endpoints that share an
allocator, in whatever order, each endpoint answers its own and ends up as it does when all other
units are left out, with any allocator. Only groups that it asked its binds to give it differ: in its
state, and in the bytes for the group in its acknowledgements. -/
theorem exchanges_alone (s : Sharing ι) (groups : GroupAllocator) (items : List (ι × List UInt8))
    (i : ι) :
    let alone : Sharing ι := { s with groups }
    let ownItems := items.filter fun item => item.1 = i
    Endpoint.AlikeRuns [] (own i (s.exchanges items)) (own i (alone.exchanges ownItems)) ∧
      ((s.after items).endpoints i).Alike (GroupGiven (own i items))
        ((alone.after ownItems).endpoints i) := by
  intro alone ownItems
  obtain ⟨hexchanges, hafter⟩ := s.own_exchanges (i := i) items
  obtain ⟨hexchanges', hafter'⟩ := alone.own_exchanges (i := i) ownItems
  have hsame : (alone.seen i ownItems).map (·.2) = (s.seen i items).map (·.2) := by
    rw [map_seen, map_seen, own_filter]
  have hstart : (s.endpoints i).Alike (GroupGiven []) (s.endpoints i) := .refl _
  have hrun := hstart.run hsame
  rw [List.nil_append, map_seen] at hrun
  rw [hexchanges, hexchanges', hafter, hafter']
  exact hrun

/-! Of two endpoints that ask for a group, the second one gets another number than it does alone. -/

def twoEndpoints : Sharing Bool := ⟨fun _ => .ofService Endpoint.bareService, .new⟩

example : ((twoEndpoints.after [(true, Endpoint.sampleBind 0 Endpoint.bareService),
    (false, Endpoint.sampleBind 0 Endpoint.bareService)]).endpoints false).group = some 2 := rfl

example : ((twoEndpoints.after [(false, Endpoint.sampleBind 0 Endpoint.bareService)]).endpoints
    false).group = some 1 := rfl

end Sharing

end RemoteCall
