import RemoteCall.Proofs.Client.Responses
import RemoteCall.Proofs.Pdu.Errors
import RemoteCall.Transport.Scripted

/-! What interrupts a call: a response to another call, a fault, or a unit that is no answer at all.
The number of the call is looked at in a response but not in a fault, so that a call ends with any
fault that comes in while it waits (`Client.call_fault_iff`), be it the fault of an earlier one. -/

namespace RemoteCall

/-- The unit is read as this fault. -/
def Fault.DecodedFrom (data : List UInt8) (f : Fault) : Prop := Pdu.decode data = .ok (.fault f)

/-- The other side has refused a call. -/
def Error.IsFault (e : Error) : Prop := ∃ status, e = .fault status

theorem Error.not_isFault_of_isDecodeError {e : Error} (h : e.isDecodeError = true) :
    ¬ e.IsFault := by
  rintro ⟨_, rfl⟩
  cases h

theorem Error.IsUnwritable.not_isFault {e : Error} (h : e.IsUnwritable) : ¬ e.IsFault := by
  rcases h with h | ⟨_, rfl⟩
  · exact Error.not_isFault_of_isDecodeError h
  · rintro ⟨_, ⟨⟩⟩

variable {σ : Type}

/-- What goes wrong with the link itself is never taken for a refusal of the other side: not on the
links of which `P` holds, and it goes on to hold of them. -/
structure Transport.Faultless (t : Transport σ) (P : σ → Prop) : Prop where
  send : ∀ data l, P l → P (t.send data l).2 ∧ FailsOnly (¬ ·.IsFault) (t.send data l).1
  receive : ∀ l, P l → P (t.receive l).2 ∧ FailsOnly (¬ ·.IsFault) (t.receive l).1

/-- A script tells how its link ends. -/
theorem ScriptedLink.faultless_transport :
    ScriptedLink.transport.Faultless (¬ ·.ending.IsFault) where
  send _ _ h := ⟨h, failsOnly_ok ()⟩
  receive l h := by
    simp only [transport, receive]
    split
    · exact ⟨h, failsOnly_error h⟩
    · exact ⟨h, failsOnly_ok _⟩

namespace Client

variable {t : Transport σ} {P : σ → Prop} {callId : UInt32} {a : Assembly} {c : Client}

/-! ## One unit -/

/-- The error that a unit ends a call with, whatever has come before it. -/
def interruption? (callId : UInt32) : Pdu → Option Error
  | .response r =>
    if r.header.callId = callId then none
    else some (.invalidState (.foreignResponse r.header.callId callId))
  | .fault f => some (.fault f.status)
  | other => some (.invalidState (.unexpectedDuringCall other.header.kind callId))

theorem takeReply_of_interruption {u : Pdu} {e : Error} (h : interruption? callId u = some e) :
    takeReply callId a u = (.error e, a) := by
  cases u with
  | response r =>
    by_cases hid : r.header.callId = callId
    · rw [interruption?, if_pos hid] at h
      cases h
    · rw [interruption?, if_neg hid] at h
      cases h
      simp only [takeReply, bne_iff_ne.mpr hid, if_true]
  | _ =>
    cases h
    rfl

/-- A response to the call itself may still be out of its place. -/
theorem takeReply_failsOnly {u : Pdu} (h : interruption? callId u = none) :
    FailsOnly (¬ ·.IsFault) (takeReply callId a u).1 := by
  cases u with
  | response r =>
    by_cases hid : r.header.callId = callId
    · simp only [takeReply, hid, bne_self_eq_false, Bool.false_eq_true, if_false]
      rcases (a.push r.fragment).1 with defect | payload
      · refine failsOnly_error ?_
        rintro ⟨_, ⟨⟩⟩
      · exact failsOnly_ok payload
    · rw [interruption?, if_neg hid] at h
      cases h
  | _ => cases h

theorem interruption?_eq_fault_iff {u : Pdu} {status : UInt32} :
    interruption? callId u = some (.fault status) ↔ ∃ f, u = .fault f ∧ f.status = status := by
  cases u with
  | response r =>
    by_cases hid : r.header.callId = callId <;> simp [interruption?, hid]
  | _ => simp [interruption?]

/-! ## All units -/

/-- One of the units interrupts the call with this error. -/
def Interrupts (callId : UInt32) (units : List (List UInt8)) (e : Error) : Prop :=
  ∃ data ∈ units, ∃ u, Pdu.decode data = .ok u ∧ interruption? callId u = some e

theorem not_interrupts_nil {e : Error} : ¬ Interrupts callId [] e := by
  rintro ⟨_, ⟨⟩, -⟩

theorem interrupts_cons_iff {data : List UInt8} {units : List (List UInt8)} {u : Pdu} {e : Error}
    (hread : Pdu.decode data = .ok u) : Interrupts callId (data :: units) e ↔
      interruption? callId u = some e ∨ Interrupts callId units e := by
  constructor
  · rintro ⟨_, hmem, u', hread', hu'⟩
    rcases List.mem_cons.mp hmem with rfl | hmem
    · cases hread.symm.trans hread'
      exact .inl hu'
    · exact .inr ⟨_, hmem, u', hread', hu'⟩
  · rintro (hu | ⟨data', hmem, hrest⟩)
    · exact ⟨data, List.mem_cons_self, u, hread, hu⟩
    · exact ⟨data', List.mem_cons_of_mem data hmem, hrest⟩

/-- A unit that cannot be read interrupts nothing: it fails in a way of its own. -/
theorem not_interrupts_unreadable {data : List UInt8} {e e' : Error}
    (h : Pdu.decode data = .error e) : ¬ Interrupts callId [data] e' := by
  rintro ⟨_, hmem, u, hread, -⟩
  cases List.mem_singleton.mp hmem
  cases h.symm.trans hread

theorem interrupts_fault_iff {units : List (List UInt8)} {status : UInt32} :
    Interrupts callId units (.fault status) ↔
      ∃ data ∈ units, ∃ f, Fault.DecodedFrom data f ∧ f.status = status := by
  constructor
  · rintro ⟨data, hmem, u, hread, hu⟩
    obtain ⟨f, rfl, hstatus⟩ := interruption?_eq_fault_iff.mp hu
    exact ⟨data, hmem, f, hread, hstatus⟩
  · rintro ⟨data, hmem, f, hread, hstatus⟩
    exact ⟨data, hmem, _, hread, interruption?_eq_fault_iff.mpr ⟨f, rfl, hstatus⟩⟩

/-- Whatever interrupts is the error that comes out, and no fault comes out but by an
interruption. -/
structure Accounts (callId : UInt32) (units : List (List UInt8))
    (result : EStateM.Result Error (Client × Traced σ) (List UInt8)) : Prop where
  interrupted : ∀ e, Interrupts callId units e → ∃ st, result = .error e st
  faulted : ∀ status st, result = .error (.fault status) st →
    Interrupts callId units (.fault status)

section Accounts

variable {units : List (List UInt8)} {result : EStateM.Result Error (Client × Traced σ) (List UInt8)}
  {st : Client × Traced σ} {data : List UInt8} {u : Pdu} {e : Error}

theorem Accounts.of_error (hnone : ∀ e', ¬ Interrupts callId units e') (he : ¬ e.IsFault) :
    Accounts callId units (.error e st) where
  interrupted e' h := absurd h (hnone e')
  faulted := by
    rintro status _ ⟨⟩
    exact absurd ⟨status, rfl⟩ he

theorem Accounts.of_ok {payload : List UInt8} (hnone : ∀ e', ¬ Interrupts callId units e') :
    Accounts callId units (.ok payload st) where
  interrupted e' h := absurd h (hnone e')
  faulted := nofun

theorem Accounts.of_interruption (hread : Pdu.decode data = .ok u)
    (hu : interruption? callId u = some e) : Accounts callId [data] (.error e st) where
  interrupted e' h := by
    rcases (interrupts_cons_iff hread).mp h with he' | h
    · cases hu.symm.trans he'
      exact ⟨st, rfl⟩
    · exact absurd h not_interrupts_nil
  faulted := by
    rintro status _ ⟨⟩
    exact (interrupts_cons_iff hread).mpr (.inl hu)

/-- A response to the call in front changes nothing. -/
theorem Accounts.cons (hread : Pdu.decode data = .ok u) (hu : interruption? callId u = none)
    (h : Accounts callId units result) : Accounts callId (data :: units) result := by
  have hiff : ∀ e, Interrupts callId (data :: units) e ↔ Interrupts callId units e := by
    intro e
    rw [interrupts_cons_iff hread, hu]
    exact or_iff_right nofun
  exact ⟨fun e he => h.interrupted e ((hiff e).mp he),
    fun status st hst => (hiff _).mpr (h.faulted status st hst)⟩

end Accounts

/-- What has been received since `before` accounts for the result. -/
def AccountedFor (callId : UInt32) (before : List (List UInt8))
    (result : EStateM.Result Error (Client × Traced σ) (List UInt8)) : Prop :=
  ∃ units, (lastState result).2.received = before ++ units ∧ Accounts callId units result

theorem AccountedFor.of_receive_error {supply : Nat} {l : Traced σ} {e : Error} {link : σ}
    (ht : t.Faultless P) (hl : P l.link) (hreceive : t.receive l.link = (.error e, link)) :
    AccountedFor callId l.received (collect t.traced callId supply a (c, l)) := by
  have htraced : t.traced.receive l = (.error e, { l with link }) := by
    simp only [Transport.traced, hreceive]
  have he : ¬ e.IsFault := (ht.receive l.link hl).2 e (by rw [hreceive])
  rw [collect_of_receive_error htraced supply a]
  exact ⟨[], (List.append_nil _).symm, .of_error (fun _ => not_interrupts_nil) he⟩

/-- What the link has received is in its trace. -/
theorem exists_traced_receive {l : Traced σ} {data : List UInt8} {link : σ}
    (h : t.receive l.link = (.ok data, link)) : ∃ l', t.traced.receive l = (.ok data, l') ∧
      l'.link = link ∧ l'.received = l.received ++ [data] := by
  refine ⟨⟨link, l.trace ++ [.received data link]⟩, ?_, rfl, ?_⟩
  · simp only [Transport.traced, h]
  · simp [Traced.received, Passage.received?]

/-- Run: what is received while something is collected accounts for how it ends. -/
theorem collect_accounted {supply : Nat} {l : Traced σ} (ht : t.Faultless P) (hl : P l.link)
    (hsupply : t.supply l.link ≤ supply) :
    AccountedFor callId l.received (collect t.traced callId supply a (c, l)) := by
  induction supply generalizing a l with
  | zero =>
    -- The recursion does not end before the transport does: there is nothing left to receive.
    rcases hreceive : t.receive l.link with ⟨e | data, link⟩
    · exact .of_receive_error ht hl hreceive
    · have hlt := t.supply_lt hreceive
      omega
  | succ supply ih =>
    rcases hreceive : t.receive l.link with ⟨e | data, link⟩
    · exact .of_receive_error ht hl hreceive
    have hl' : P link := by
      have hkept := (ht.receive l.link hl).1
      rwa [hreceive] at hkept
    have hless : t.supply link ≤ supply :=
      Nat.le_of_lt_succ (Nat.lt_of_lt_of_le (t.supply_lt hreceive) hsupply)
    obtain ⟨l', htraced, rfl, hreceived⟩ := exists_traced_receive hreceive
    rw [collect_of_receive htraced]
    cases hread : Pdu.decode data with
    | error e =>
      have he := Error.not_isFault_of_isDecodeError (Pdu.isDecodeError_of_decode hread)
      rw [bind_of_error (given_of_error rfl)]
      exact ⟨[data], hreceived, .of_error (fun _ => not_interrupts_unreadable hread) he⟩
    | ok u =>
      rw [bind_of_ok (given_of_ok rfl)]
      cases hu : interruption? callId u with
      | some e =>
        rw [takeReply_of_interruption hu]
        exact ⟨[data], hreceived, .of_interruption hread hu⟩
      | none =>
        have hnone : ∀ e, ¬ Interrupts callId [data] e := fun e h =>
          ((interrupts_cons_iff hread).mp h).elim (by rw [hu]; nofun) not_interrupts_nil
        have hfails := takeReply_failsOnly (a := a) hu
        generalize takeReply callId a u = reply at hfails ⊢
        rcases reply with ⟨e | _ | payload, a'⟩
        · exact ⟨[data], hreceived, .of_error hnone (hfails e rfl)⟩
        · obtain ⟨units, hunits, haccounts⟩ := @ih a' l' hl' hless
          refine ⟨data :: units, hunits.trans ?_, haccounts.cons hread hu⟩
          rw [hreceived, List.append_assoc, List.singleton_append]
        · exact ⟨[data], hreceived, .of_ok hnone⟩

/-! ## Calls -/

/-- What goes wrong while a request is sent is no fault. -/
theorem not_isFault_of_sendAll (ht : t.Faultless P) {rs : List Request} {c c' : Client} {l l' : σ}
    {e : Error} (hl : P l) (h : sendAll t rs (c, l) = .error e (c', l')) : ¬ e.IsFault := by
  induction rs generalizing l with
  | nil => cases h
  | cons r rs ih =>
    rw [sendAll] at h
    cases hencode : r.encode with
    | error e' =>
      rw [bind_of_error (given_of_error hencode)] at h
      cases h
      exact (r.encode_failsOnly e hencode).not_isFault
    | ok data =>
      obtain ⟨hkept, hfails⟩ := ht.send data l hl
      rw [bind_of_ok (given_of_ok hencode)] at h
      rcases hsend : t.send data l with ⟨e' | _, l₁⟩
      · rw [bind_of_error (onLink_of_error hsend)] at h
        cases h
        exact hfails e (by rw [hsend])
      · rw [hsend] at hkept
        rw [bind_of_ok (onLink_of_ok hsend)] at h
        exact ih hkept h

theorem Faultless.traced (ht : t.Faultless P) : t.traced.Faultless (P ·.link) where
  send data l hl := ht.send data l.link hl
  receive l hl := by
    obtain ⟨hkept, hfails⟩ := ht.receive l.link hl
    rcases hreceive : t.receive l.link with ⟨e | data, link⟩
    · rw [hreceive] at hkept hfails
      simp only [Transport.traced, hreceive]
      exact ⟨hkept, failsOnly_error (hfails e rfl)⟩
    · rw [hreceive] at hkept
      simp only [Transport.traced, hreceive]
      exact ⟨hkept, failsOnly_ok data⟩

/-- Until something is received nothing interrupts, and nothing else is taken for a fault. -/
theorem call_accounted (ht : t.Faultless P) (opnum : UInt16) (stub : List UInt8) (c : Client)
    {l : σ} (hl : P l) : AccountedFor (c.callId + 1) [] (call t.traced opnum stub (c, ⟨l, []⟩)) := by
  have hsilent : ∀ {e : Error} {st : Client × Traced σ}, st.2.received = [] → ¬ e.IsFault →
      AccountedFor (c.callId + 1) [] (.error e st) :=
    fun hnone he => ⟨[], hnone, .of_error (fun _ => not_interrupts_nil) he⟩
  cases ha : c.association with
  | none =>
    rw [call_of_unbound ha opnum stub]
    refine hsilent rfl ?_
    rintro ⟨_, ⟨⟩⟩
  | some a =>
    rw [call_of_bound ha opnum stub]
    cases hrs : Request.fragments (c.callId + 1) a.contextId opnum none stub a.maxTransmit with
    | error e =>
      rw [bind_of_error (given_of_error rfl)]
      exact hsilent rfl (Request.fragments_failsOnly _ _ _ _ _ _ e hrs).not_isFault
    | ok rs =>
      rw [bind_of_ok (given_of_ok rfl)]
      -- Nothing is received while the request is sent.
      have hpreserves : Preserves (fun st => P st.2.link ∧ st.2.received = [])
          (sendAll t.traced rs) :=
        .sendAll fun _ _ data _ _ l hl =>
          ⟨(ht.send data l.link hl.1).1, (received_send t data l).trans hl.2⟩
      have hsilence := hpreserves ({ c with callId := c.callId + 1 }, ⟨l, []⟩) ⟨hl, rfl⟩
      rcases hsent : sendAll t.traced rs ({ c with callId := c.callId + 1 }, ⟨l, []⟩)
        with ⟨_, c', l'⟩ | ⟨e, c', l'⟩
      · rw [endState_of_ok hsent] at hsilence
        rw [bind_of_ok hsent]
        have hcollect : AccountedFor (c.callId + 1) l'.received (collect t.traced (c.callId + 1)
            (t.supply l'.link) .awaitingFirst (c', l')) :=
          collect_accounted ht hsilence.1 (Nat.le_refl _)
        rw [hsilence.2] at hcollect
        exact hcollect
      · rw [endState_of_error hsent] at hsilence
        rw [bind_of_error hsent]
        exact hsilent hsilence.2 (not_isFault_of_sendAll (Faultless.traced ht) hl hsent)

/-- **What a call makes of faults.** Whatever a transport brings that makes up no faults of its own,
in whatever state the client is, a call ends with a fault exactly if one is received while it waits,
and it reports the status of that one. A response to another call is told apart from its own; the
number of the call that a fault is about is not looked at. -/
theorem call_fault_iff (t : Transport σ) (ht : t.Faultless P) (opnum : UInt16) (stub : List UInt8)
    (c : Client) (l : σ) (hl : P l) :
    let result := call t opnum stub (c, l)
    let units := (endState (call t.traced opnum stub) (c, ⟨l, []⟩)).2.received
    (∀ status, (∃ st, result = .error (.fault status) st) ↔
      ∃ data ∈ units, ∃ f, Fault.DecodedFrom data f ∧ f.status = status) ∧
    ∀ data ∈ units, ∀ r, Response.DecodedFrom data r → r.header.callId ≠ c.callId + 1 →
      ∃ st, result = .error (.invalidState (.foreignResponse r.header.callId (c.callId + 1))) st := by
  intro result units
  obtain ⟨_, hunits, haccounts⟩ := call_accounted ht opnum stub c hl
  obtain rfl : units = _ := hunits
  have hforget : forget (call t.traced opnum stub (c, ⟨l, []⟩)) = result :=
    Shadows.call t opnum stub c ⟨l, []⟩
  have hinterrupted : ∀ e, Interrupts (c.callId + 1) units e → ∃ st, result = .error e st := by
    intro e h
    obtain ⟨st, hst⟩ := haccounts.interrupted e h
    exact ⟨_, hforget.symm.trans (congrArg forget hst)⟩
  refine ⟨fun status => ⟨?_, fun h => hinterrupted _ (interrupts_fault_iff.mpr h)⟩, ?_⟩
  · rintro ⟨st, hst⟩
    suffices hfault : Interrupts (c.callId + 1) units (.fault status) from
      interrupts_fault_iff.mp hfault
    rw [hst] at hforget
    rcases hresult : call t.traced opnum stub (c, ⟨l, []⟩) with ⟨payload, st'⟩ | ⟨e, st'⟩
    · rw [hresult] at hforget
      cases hforget
    · rw [hresult] at hforget
      cases hforget
      exact haccounts.faulted status st' hresult
  · intro data hmem r hread hid
    refine hinterrupted _ ⟨data, hmem, _, hread, ?_⟩
    rw [interruption?, if_neg hid]

/-- A client in an association that has made two calls. -/
def afterTwoCalls : Client :=
  ⟨{}, some ⟨.serverService, 0, .ndr2, 5, "", defaultMaxFragment⟩, 2⟩

/-- A fault of the second call, with status 1783. -/
def lateFault : List UInt8 :=
  [5, 0, 3, 3, 16, 0, 0, 0, 32, 0, 0, 0, 2, 0, 0, 0,
   32, 0, 0, 0, 0, 0, 0, 0, 247, 6, 0, 0, 0, 0, 0, 0]

theorem received_lateFault : (endState (call ScriptedLink.transport.traced 3 [1, 2])
    (afterTwoCalls, ⟨.replying [lateFault], []⟩)).2.received = [lateFault] := by
  decide +kernel

theorem lateFault_ends_third_call :
    ¬ (ScriptedLink.replying [lateFault]).ending.IsFault ∧
    ∃ st, call ScriptedLink.transport 3 [1, 2] (afterTwoCalls, .replying [lateFault]) =
      .error (.fault 1783) st := by
  have hending : ¬ (ScriptedLink.replying [lateFault]).ending.IsFault := by
    rintro ⟨_, ⟨⟩⟩
  have hfault := (call_fault_iff ScriptedLink.transport ScriptedLink.faultless_transport 3 [1, 2]
    afterTwoCalls (.replying [lateFault]) hending).1 1783
  rw [received_lateFault] at hfault
  exact ⟨hending, hfault.mpr ⟨lateFault, List.mem_singleton_self _, _, rfl, rfl⟩⟩

/-- **A fault is not matched with its call.** The third call of this client ends with the fault of
the second one, although it has received nothing else. -/
theorem third_call_ends_with_second_fault :
    (∃ st, call ScriptedLink.transport 3 [1, 2] (afterTwoCalls, .replying [lateFault]) =
      .error (.fault 1783) st) ∧
    ¬ ∃ data ∈ (endState (call ScriptedLink.transport.traced 3 [1, 2])
        (afterTwoCalls, ⟨.replying [lateFault], []⟩)).2.received,
      ∃ f, Fault.DecodedFrom data f ∧ f.header.callId = afterTwoCalls.callId + 1 ∧
        f.status = 1783 := by
  have hcall : call ScriptedLink.transport 3 [1, 2] (afterTwoCalls, .replying [lateFault]) =
      .error (.fault 1783) ({ afterTwoCalls with callId := 3 }, .replying []) := by
    with_unfolding_all rfl
  refine ⟨⟨_, hcall⟩, ?_⟩
  rw [received_lateFault]
  rintro ⟨_, hmem, f, hread, hid, -⟩
  obtain rfl := List.mem_singleton.mp hmem
  have hdecode : Pdu.decode lateFault = .ok (.fault { Fault.of 2 0 1783 with
      header := { Header.of .fault 2 with fragmentLength := 32 } }) := by rfl
  cases hdecode.symm.trans hread
  cases hid

end Client

end RemoteCall
