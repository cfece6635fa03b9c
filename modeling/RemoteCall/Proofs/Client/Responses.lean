import RemoteCall.Proofs.Client.Talk
import RemoteCall.Proofs.Client.Trace

/-! What a call makes of the units that its client receives, whoever sends them
(`Client.call_ok_iff`): it ends well on the fragments of one response to that very call, and on
nothing else. -/

namespace RemoteCall

/-- The responses are the fragments of one response to the call, in order. -/
structure Response.MakeUp (callId : UInt32) (rs : List Response) (payload : List UInt8) :
    Prop where
  nonempty : rs ≠ []
  callId : ∀ r ∈ rs, r.header.callId = callId
  isFirst : ∀ i (h : i < rs.length), rs[i].header.flags.isFirst = decide (i = 0)
  isLast : ∀ i (h : i < rs.length), rs[i].header.flags.isLast = decide (i + 1 = rs.length)
  payload : payload = rs.flatMap (·.stub)

/-- The unit is read as this response. -/
def Response.DecodedFrom (data : List UInt8) (r : Response) : Prop :=
  Pdu.decode data = .ok (.response r)

/-- The unit is a response to the call, and the first one if `first`. -/
def Response.FitsIn (callId : UInt32) (first : Bool) (data : List UInt8) : Prop :=
  ∃ r : Response, r.DecodedFrom data ∧ r.header.callId = callId ∧ r.header.flags.isFirst = first

namespace Client

variable {σ : Type} {callId : UInt32} {first : Bool} {a : Assembly} {c : Client}

/-! ## One unit -/

/-- A response to the call that is in its place is taken in, and anything else is an error. -/
theorem takeReply_cases (hawaits : a.Awaits callId first) (u : Pdu) :
    (∃ r, u = .response r ∧ r.header.callId = callId ∧ r.header.flags.isFirst = first ∧
      takeReply callId a u = if r.header.flags.isLast then
          (.ok (some (a.gathered ++ r.stub)), .complete callId)
        else (.ok none, .accumulating callId (a.gathered ++ r.stub))) ∨
    ((∃ e a', takeReply callId a u = (.error e, a')) ∧
      ∀ r, u = .response r → ¬ (r.header.callId = callId ∧ r.header.flags.isFirst = first)) := by
  cases u with
  | response r =>
    by_cases hid : r.header.callId = callId
    · by_cases hfirst : r.header.flags.isFirst = first
      · refine .inl ⟨r, rfl, hid, hfirst, ?_⟩
        have haccepts : a.Accepts ⟨callId, r.header.flags, r.stub⟩ := hawaits.accepts rfl hfirst
        cases hlast : r.header.flags.isLast with
        | true => exact takeReply_last (h := r.header) hid rfl haccepts hlast
        | false => exact takeReply_more (h := r.header) hid rfl haccepts hlast
      · have hplace : ¬ a.Accepts r.fragment := fun haccepts =>
          hfirst ((hawaits.accepts_iff hid).mp haccepts)
        obtain ⟨defect, hpush⟩ := Assembly.push_of_not_accepts hplace
        refine .inr ⟨⟨.reassembly defect, .awaitingFirst, ?_⟩, ?_⟩
        · simp only [takeReply, hid, bne_self_eq_false, Bool.false_eq_true, if_false, hpush,
            Except.mapError]
        · rintro _ ⟨⟩ ⟨-, h⟩
          exact hfirst h
    · refine .inr ⟨⟨.invalidState (.foreignResponse r.header.callId callId), a, ?_⟩, ?_⟩
      · simp only [takeReply, bne_iff_ne.mpr hid, if_true]
      · rintro _ ⟨⟩ ⟨h, -⟩
        exact hid h
  | _ =>
    refine .inr ⟨⟨_, a, rfl⟩, ?_⟩
    rintro _ ⟨⟩

/-! ## All units -/

/-- The units are read as the fragments of a response, from the first one on if `first`. -/
def Makes (callId : UInt32) (first : Bool) (units : List (List UInt8)) (payload : List UInt8) :
    Prop :=
  ∃ rs, List.Forall₂ (fun data r => Response.DecodedFrom data r) units rs ∧
    Fragments callId first (rs.map Response.fragment) payload

theorem not_makes_nil {payload : List UInt8} : ¬ Makes callId first [] payload := by
  rintro ⟨rs, hread, hrs⟩
  obtain rfl := List.forall₂_nil_left_iff.mp hread
  cases hrs

/-- The first unit tells what the others have to make. -/
theorem makes_cons_iff {data payload : List UInt8} {units : List (List UInt8)} {r : Response}
    (hread : r.DecodedFrom data) (hid : r.header.callId = callId)
    (hfirst : r.header.flags.isFirst = first) : Makes callId first (data :: units) payload ↔
      (r.header.flags.isLast = true ∧ units = [] ∧ payload = r.stub) ∨
        (r.header.flags.isLast = false ∧
          ∃ rest, Makes callId false units rest ∧ payload = r.stub ++ rest) := by
  constructor
  · rintro ⟨_, hall, hrs⟩
    obtain ⟨r', rs, hread', hreads, rfl⟩ := List.forall₂_cons_left_iff.mp hall
    cases hread.symm.trans hread'
    obtain ⟨-, -, hrest⟩ := fragments_cons_iff.mp hrs
    refine hrest.imp ?_ ?_
    · rintro ⟨hlast, hnil, hpayload⟩
      obtain rfl := List.map_eq_nil_iff.mp hnil
      exact ⟨hlast, List.forall₂_nil_right_iff.mp hreads, hpayload⟩
    · rintro ⟨hlast, rest, hrest, hpayload⟩
      exact ⟨hlast, rest, ⟨rs, hreads, hrest⟩, hpayload⟩
  · rintro (⟨hlast, rfl, rfl⟩ | ⟨hlast, rest, ⟨rs, hreads, hrs⟩, rfl⟩)
    · exact ⟨[r], .cons hread .nil, .last hid hfirst hlast⟩
    · exact ⟨r :: rs, .cons hread hreads, .more hid hfirst hlast hrs⟩

/-- A unit that does not fit in spoils all that comes with it. -/
theorem not_makes_cons {data payload : List UInt8} {units : List (List UInt8)}
    (h : ¬ Response.FitsIn callId first data) : ¬ Makes callId first (data :: units) payload := by
  rintro ⟨_, hall, hrs⟩
  obtain ⟨r, rs, hread, -, rfl⟩ := List.forall₂_cons_left_iff.mp hall
  obtain ⟨hid, hfirst, -⟩ := fragments_cons_iff.mp hrs
  exact h ⟨r, hread, hid, hfirst⟩

theorem collect_of_receive_error {t : Transport σ} {l l' : σ} {e : Error}
    (hreceive : t.receive l = (.error e, l')) (supply : Nat) (a : Assembly) :
    collect t callId supply a (c, l) = .error e (c, l') := by
  cases supply with
  | zero => exact bind_of_error (onLink_of_error hreceive)
  | succ supply => exact bind_of_error (onLink_of_error hreceive)

/-- The units that are received while something is collected make up the payload, or they make up
nothing and it fails. -/
def CollectsMade (t : Transport σ) (callId : UInt32) (first : Bool) (supply : Nat) (a : Assembly)
    (c : Client) (l : Traced σ) : Prop :=
  ∃ units,
    (endState (collect t.traced callId supply a) (c, l)).2.received = l.received ++ units ∧
    ∀ payload, (∃ st, collect t.traced callId supply a (c, l) = .ok payload st) ↔
      ∃ rest, Makes callId first units rest ∧ payload = a.gathered ++ rest

section Collecting

variable {t : Transport σ} {supply : Nat} {l l' : Traced σ} {units : List (List UInt8)}

theorem collectsMade_of_error {e : Error}
    (hcollect : collect t.traced callId supply a (c, l) = .error e (c, l'))
    (hreceived : l'.received = l.received ++ units) (h : ∀ rest, ¬ Makes callId first units rest) :
    CollectsMade t callId first supply a c l := by
  refine ⟨units, ?_, fun payload => ⟨?_, ?_⟩⟩
  · rw [endState_of_error hcollect]
    exact hreceived
  · rintro ⟨st, hok⟩
    rw [hcollect] at hok
    cases hok
  · rintro ⟨rest, hmakes, -⟩
    exact absurd hmakes (h rest)

theorem collectsMade_of_receive_error {e : Error} {link : σ}
    (hreceive : t.receive l.link = (.error e, link)) :
    CollectsMade t callId first supply a c l := by
  have htraced : t.traced.receive l = (.error e, { l with link }) := by
    simp only [Transport.traced, hreceive]
  exact collectsMade_of_error (collect_of_receive_error htraced supply a) (List.append_nil _).symm
    fun _ => not_makes_nil

/-! A response that fits in is the last one, or others follow. -/

variable {data : List UInt8} {r : Response} (hreceived : l'.received = l.received ++ [data])
  (hread : r.DecodedFrom data) (hid : r.header.callId = callId)
  (hfirst : r.header.flags.isFirst = first)
include hreceived hread hid hfirst

theorem collectsMade_of_last (hlast : r.header.flags.isLast = true)
    (hcollect : collect t.traced callId supply a (c, l) = .ok (a.gathered ++ r.stub) (c, l')) :
    CollectsMade t callId first supply a c l := by
  refine ⟨[data], ?_, fun payload => ?_⟩
  · rw [endState_of_ok hcollect]
    exact hreceived
  · rw [hcollect]
    constructor
    · rintro ⟨_, ⟨⟩⟩
      exact ⟨r.stub, (makes_cons_iff hread hid hfirst).mpr (.inl ⟨hlast, rfl, rfl⟩), rfl⟩
    · rintro ⟨rest, hmakes, rfl⟩
      rcases (makes_cons_iff hread hid hfirst).mp hmakes with ⟨-, -, rfl⟩ | ⟨hmore, -⟩
      · exact ⟨_, rfl⟩
      · rw [hlast] at hmore
        cases hmore

theorem collectsMade_of_more (hlast : r.header.flags.isLast = false)
    (hcollect : collect t.traced callId (supply + 1) a (c, l) =
      collect t.traced callId supply (.accumulating callId (a.gathered ++ r.stub)) (c, l'))
    (hrest : CollectsMade t callId false supply (.accumulating callId (a.gathered ++ r.stub)) c
      l') : CollectsMade t callId first (supply + 1) a c l := by
  obtain ⟨units, hunits, hmade⟩ := hrest
  refine ⟨data :: units, ?_, fun payload => ?_⟩
  · rw [endState, hcollect]
    refine hunits.trans ?_
    rw [hreceived, List.append_assoc, List.singleton_append]
  · rw [hcollect, hmade, Assembly.gathered_accumulating]
    constructor
    · rintro ⟨rest, hmakes, rfl⟩
      refine ⟨r.stub ++ rest, (makes_cons_iff hread hid hfirst).mpr ?_, List.append_assoc ..⟩
      exact .inr ⟨hlast, rest, hmakes, rfl⟩
    · rintro ⟨_, hmakes, rfl⟩
      rcases (makes_cons_iff hread hid hfirst).mp hmakes with ⟨hend, -⟩ | ⟨-, rest, hrest, rfl⟩
      · rw [hlast] at hend
        cases hend
      · exact ⟨rest, hrest, (List.append_assoc ..).symm⟩

omit hreceived hread hid hfirst

/-- Run: what is collected is what the units make that are received from now on. -/
theorem collect_made (hsupply : t.supply l.link ≤ supply) (hawaits : a.Awaits callId first) :
    CollectsMade t callId first supply a c l := by
  induction supply generalizing a first l with
  | zero =>
    -- The recursion does not end before the transport does: there is nothing left to receive.
    rcases hreceive : t.receive l.link with ⟨e | data, link⟩
    · exact collectsMade_of_receive_error hreceive
    · have hlt := t.supply_lt hreceive
      omega
  | succ supply ih =>
    rcases hreceive : t.receive l.link with ⟨e | data, link⟩
    · exact collectsMade_of_receive_error hreceive
    let l' : Traced σ := ⟨link, l.trace ++ [.received data link]⟩
    have htraced : t.traced.receive l = (.ok data, l') := by
      simp only [Transport.traced, hreceive, l']
    have hreceived : l'.received = l.received ++ [data] := by
      simp [Traced.received, l', Passage.received?]
    have hcollect := collect_of_receive (c := c) htraced callId supply a
    cases hdecode : Pdu.decode data with
    | error e =>
      rw [bind_of_error (given_of_error hdecode)] at hcollect
      refine collectsMade_of_error hcollect hreceived fun _ => not_makes_cons ?_
      rintro ⟨r, hread, -⟩
      cases hdecode.symm.trans hread
    | ok u =>
      rw [bind_of_ok (given_of_ok hdecode)] at hcollect
      rcases takeReply_cases hawaits u with ⟨r, rfl, hid, hfirst, htake⟩ | ⟨⟨e, a', htake⟩, hnot⟩
      · cases hlast : r.header.flags.isLast with
        | true =>
          rw [htake, hlast, if_pos rfl] at hcollect
          exact collectsMade_of_last hreceived hdecode hid hfirst hlast hcollect
        | false =>
          rw [htake, hlast, if_neg Bool.false_ne_true] at hcollect
          have hless : t.supply link ≤ supply :=
            Nat.le_of_lt_succ (Nat.lt_of_lt_of_le (t.supply_lt hreceive) hsupply)
          exact collectsMade_of_more hreceived hdecode hid hfirst hlast hcollect
            (ih hless (Assembly.awaits_accumulating callId _))
      · rw [htake] at hcollect
        refine collectsMade_of_error hcollect hreceived fun _ => not_makes_cons ?_
        rintro ⟨r, hread, hid, hfirst⟩
        cases hdecode.symm.trans hread
        exact hnot r rfl ⟨hid, hfirst⟩

end Collecting

/-! ## Calls -/

/-- What is sent is not received. -/
theorem received_send (t : Transport σ) (data : List UInt8) (l : Traced σ) :
    (t.traced.send data l).2.received = l.received := by
  simp [Transport.traced, Traced.received, Passage.received?]

/-- A call has nothing to make its payload of but what is received for it. -/
theorem call_made (t : Transport σ) (opnum : UInt16) (stub : List UInt8) (c : Client) (l : σ)
    (payload : List UInt8) :
    (∃ st, call t.traced opnum stub (c, ⟨l, []⟩) = .ok payload st) ↔
      Makes (c.callId + 1) true
        (endState (call t.traced opnum stub) (c, ⟨l, []⟩)).2.received payload := by
  have hfailed : ∀ {e : Error} {st : Client × Traced σ},
      call t.traced opnum stub (c, ⟨l, []⟩) = .error e st → st.2.received = [] →
      ((∃ st, call t.traced opnum stub (c, ⟨l, []⟩) = .ok payload st) ↔
        Makes (c.callId + 1) true
          (endState (call t.traced opnum stub) (c, ⟨l, []⟩)).2.received payload) := by
    intro e st hcall hnone
    rw [endState_of_error hcall, hnone, hcall]
    exact ⟨nofun, fun hmakes => absurd hmakes not_makes_nil⟩
  cases ha : c.association with
  | none => exact hfailed (call_of_unbound ha opnum stub) rfl
  | some a =>
    have hcall := call_of_bound (t := t.traced) (l := ⟨l, []⟩) ha opnum stub
    cases hrs : Request.fragments (c.callId + 1) a.contextId opnum none stub a.maxTransmit with
    | error e =>
      rw [bind_of_error (given_of_error hrs)] at hcall
      exact hfailed hcall rfl
    | ok rs =>
      rw [bind_of_ok (given_of_ok hrs)] at hcall
      -- Nothing is received while the request is sent.
      have hsilent : Preserves (fun st => st.2.received = []) (sendAll t.traced rs) :=
        .sendAll fun _ _ data _ _ l hl => (received_send t data l).trans hl
      have hnone := hsilent ({ c with callId := c.callId + 1 }, ⟨l, []⟩) rfl
      rcases hsent : sendAll t.traced rs ({ c with callId := c.callId + 1 }, ⟨l, []⟩)
        with ⟨_, c', l'⟩ | ⟨e, c', l'⟩
      · rw [endState_of_ok hsent] at hnone
        rw [bind_of_ok hsent] at hcall
        have hnext := hcall.trans (bind_of_ok rfl)
        have hawaits : Assembly.awaitingFirst.Awaits (c.callId + 1) true := rfl
        obtain ⟨units, hunits, hmade⟩ := collect_made (t := t) (c := c') (l := l') (Nat.le_refl _)
          hawaits
        have hreceived : (endState (call t.traced opnum stub) (c, ⟨l, []⟩)).2.received = units := by
          rw [endState, hnext]
          exact hunits.trans (congrArg (· ++ units) hnone)
        rw [hreceived, hnext]
        refine (hmade payload).trans ⟨?_, fun hmakes => ⟨payload, hmakes, rfl⟩⟩
        rintro ⟨rest, hmakes, rfl⟩
        exact hmakes
      · rw [endState_of_error hsent] at hnone
        rw [bind_of_error hsent] at hcall
        exact hfailed hcall hnone

theorem makeUp_iff {rs : List Response} {payload : List UInt8} :
    Fragments callId true (rs.map Response.fragment) payload ↔
      Response.MakeUp callId rs payload := by
  rw [fragments_iff]
  simp only [ne_eq, List.map_eq_nil_iff, List.forall_mem_map, List.length_map, List.getElem_map,
    Bool.true_and, List.flatMap_map, Response.fragment]
  constructor
  · rintro ⟨hne, hids, hfirsts, hlasts, hpayload⟩
    exact ⟨hne, hids, hfirsts, hlasts, hpayload⟩
  · rintro ⟨hne, hids, hfirsts, hlasts, hpayload⟩
    exact ⟨hne, hids, hfirsts, hlasts, hpayload⟩

/-- Every unit that makes up a payload fits in. -/
theorem Makes.fitsIn {units : List (List UInt8)} {payload : List UInt8}
    (h : Makes callId true units payload) (i : Nat) (hi : i < units.length) :
    Response.FitsIn callId (decide (i = 0)) units[i] := by
  obtain ⟨rs, hread, hrs⟩ := h
  obtain ⟨-, hids, hfirsts, -, -⟩ := makeUp_iff.mp hrs
  have hi' : i < rs.length := hread.length_eq ▸ hi
  exact ⟨rs[i], hread.get hi hi', hids _ (List.getElem_mem hi'), hfirsts i hi'⟩

/-- **A result is never built from the data of another call.** Whatever the transport brings, in
whatever state the client is, a call ends well exactly if the units that are received for it are the
fragments of one response to it, and then its result is what they carry. A unit that is no response
to the call, or that is not in its place, makes it fail; and nothing of what was received stays with
the client. -/
theorem call_ok_iff (t : Transport σ) (opnum : UInt16) (stub : List UInt8) (c : Client) (l : σ) :
    let result := call t opnum stub (c, l)
    let units := (endState (call t.traced opnum stub) (c, ⟨l, []⟩)).2.received
    forget (call t.traced opnum stub (c, ⟨l, []⟩)) = result ∧
    (∀ payload, (∃ st, result = .ok payload st) ↔
      ∃ rs, List.Forall₂ (fun data r => Response.DecodedFrom data r) units rs ∧
        Response.MakeUp (c.callId + 1) rs payload) ∧
    (∀ i (h : i < units.length),
      ¬ Response.FitsIn (c.callId + 1) (decide (i = 0)) units[i] → ∃ e st, result = .error e st) ∧
    ∃ callId, (endState (call t opnum stub) (c, l)).1 = { c with callId } := by
  intro result units
  have hforget : forget (call t.traced opnum stub (c, ⟨l, []⟩)) = result :=
    Shadows.call t opnum stub c ⟨l, []⟩
  have hmade : ∀ payload, (∃ st, result = .ok payload st) ↔
      Makes (c.callId + 1) true units payload := by
    intro payload
    rw [← call_made t opnum stub c l payload, ← hforget]
    cases call t.traced opnum stub (c, ⟨l, []⟩) with
    | ok payload' st => simp [forget]
    | error e st => simp [forget]
  refine ⟨hforget, fun payload => ?_, fun i hi hforeign => ?_, ?_⟩
  · rw [hmade payload]
    exact exists_congr fun rs => and_congr_right fun _ => makeUp_iff
  · cases hresult : result with
    | error e st => exact ⟨e, st, rfl⟩
    | ok payload st =>
      have hmakes := (hmade payload).mp ⟨st, hresult⟩
      exact absurd (hmakes.fitsIn i hi) hforeign
  · have hpreserves : Preserves (fun st => ∃ callId, st.1 = { c with callId })
        (call t opnum stub) := by
      refine .call ?_ (fun _ _ _ _ _ hst _ _ _ _ _ _ => hst) fun _ _ hst => hst
      rintro _ _ callId ⟨_, rfl⟩
      exact ⟨callId, rfl⟩
    exact hpreserves (c, l) ⟨c.callId, rfl⟩

end Client

end RemoteCall
