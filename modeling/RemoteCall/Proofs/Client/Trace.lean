import RemoteCall.Proofs.Client.Compatible

/-! A client step by step, and what passes over its link. A link can keep a trace of that, which
makes no difference to the client (`Client.Shadows`): the trace is there for what is said about a
call while it goes on. -/

namespace RemoteCall

/-- A unit that passed over a link, and the link then. -/
inductive Passage (σ : Type)
  | sent (data : List UInt8) (link : σ)
  | received (data : List UInt8) (link : σ)

def Passage.received? {σ : Type} : Passage σ → Option (List UInt8)
  | sent .. => none
  | received data _ => some data

/-- A link with a trace of all that passed over it. -/
structure Traced (σ : Type) where
  link : σ
  trace : List (Passage σ)

/-- The units that were received. -/
def Traced.received {σ : Type} (l : Traced σ) : List (List UInt8) :=
  l.trace.filterMap Passage.received?

/-- The same transport over a link with a trace. -/
def Transport.traced {σ : Type} (t : Transport σ) : Transport (Traced σ) where
  kind := t.kind
  send data l :=
    let (result, link) := t.send data l.link
    (result, ⟨link, l.trace ++ [.sent data link]⟩)
  receive l :=
    match t.receive l.link with
    | (.ok data, link) => (.ok data, ⟨link, l.trace ++ [.received data link]⟩)
    | (.error e, link) => (.error e, { l with link })
  close l :=
    let (result, link) := t.close l.link
    (result, { l with link })
  isConnected l := t.isConnected l.link
  supply l := t.supply l.link
  supply_lt := by
    intro l l' bytes h
    rcases hreceive : t.receive l.link with ⟨_ | data, link⟩
    · rw [hreceive] at h
      cases h
    · rw [hreceive] at h
      cases h
      exact t.supply_lt hreceive

namespace Client

section Steps

variable {σ α β : Type} {x : Talk σ α} {f : α → Talk σ β} {st st' : Client × σ} {a : α} {e : Error}

theorem bind_of_ok (h : x st = .ok a st') : (x >>= f) st = f a st' := by
  change EStateM.bind x f st = f a st'
  simp only [EStateM.bind, h]

theorem bind_of_error (h : x st = .error e st') : (x >>= f) st = .error e st' := by
  change EStateM.bind x f st = .error e st'
  simp only [EStateM.bind, h]

theorem given_of_ok {r : Except Error α} (h : r = .ok a) : given r st = .ok a st := by
  rw [h]
  rfl

theorem given_of_error {r : Except Error α} (h : r = .error e) : given r st = .error e st := by
  rw [h]
  rfl

variable {l l' : σ} {c : Client} {op : σ → Except Error α × σ}

theorem onLink_of_ok (h : op l = (.ok a, l')) : onLink op (c, l) = .ok a (c, l') := by
  simp only [onLink, h]

theorem onLink_of_error (h : op l = (.error e, l')) : onLink op (c, l) = .error e (c, l') := by
  simp only [onLink, h]

variable {t : Transport σ}

theorem call_of_unbound (h : c.association = none) (opnum : UInt16) (stub : List UInt8) :
    call t opnum stub (c, l) = .error (.invalidState .notBound) (c, l) := by
  obtain ⟨config, _, callId⟩ := c
  cases h
  exact (bind_of_ok rfl).trans rfl

/-- What a bind does once its proposal is written. -/
theorem bind_of_encode {i : Interface} {data : List UInt8}
    (h : (proposal c.config (c.callId + 1) i).encode = .ok data) :
    bind t i (c, l) = (do
      onLink (t.send data)
      match ← given (Pdu.decode (← onLink t.receive)) with
      | .bindAck ack =>
        let association ← given (associate i (proposal c.config (c.callId + 1) i) ack)
        modify fun (c, l) => ({ c with association := some association }, l)
        return association
      | .bindNak refusal => throw (.bindNak refusal.reason)
      | other => throw (.invalidState (.expectedAck other.header.kind)) : Talk σ Association)
        ({ c with callId := c.callId + 1 }, l) :=
  (bind_of_ok rfl).trans ((bind_of_ok rfl).trans (bind_of_ok (given_of_ok h)))

/-- What a call does in an association. -/
theorem call_of_bound {association : Association} (h : c.association = some association)
    (opnum : UInt16) (stub : List UInt8) :
    call t opnum stub (c, l) = (do
      let rs ← given (Request.fragments (c.callId + 1) association.contextId opnum none stub
        association.maxTransmit)
      sendAll t rs
      collect t (c.callId + 1) (t.supply (← get).2) .awaitingFirst)
        ({ c with callId := c.callId + 1 }, l) := by
  obtain ⟨config, _, callId⟩ := c
  cases h
  exact (bind_of_ok rfl).trans (bind_of_ok rfl)

end Steps

/-! ## What a client keeps -/

section Keeping

variable {σ α β : Type} {P : Client × σ → Prop} {x : Talk σ α} {f : α → Talk σ β}

/-- What is left of the client and its link, whether something has failed or not. -/
def lastState : EStateM.Result Error (Client × σ) α → Client × σ
  | .ok _ st => st
  | .error _ st => st

/-- The same of something that is done from a state on. -/
def endState (x : Talk σ α) (st : Client × σ) : Client × σ := lastState (x st)

/-- The property holds afterwards if it holds before. -/
def Preserves (P : Client × σ → Prop) (x : Talk σ α) : Prop := ∀ st, P st → P (endState x st)

theorem endState_of_ok {st st' : Client × σ} {a : α} (h : x st = .ok a st') :
    endState x st = st' := congrArg lastState h

theorem endState_of_error {st st' : Client × σ} {e : Error} (h : x st = .error e st') :
    endState x st = st' := congrArg lastState h

namespace Preserves

theorem pure (a : α) : Preserves P (Pure.pure a : Talk σ α) := fun _ hst => hst

theorem throw (e : Error) : Preserves P (throw e : Talk σ α) := fun _ hst => hst

theorem given (r : Except Error α) : Preserves P (given r : Talk σ α) := by
  intro st hst
  cases r <;> exact hst

theorem bind (hx : Preserves P x) (hf : ∀ a, Preserves P (f a)) : Preserves P (x >>= f) := by
  intro st hst
  have hleft := hx st hst
  cases hresult : x st with
  | ok a st' =>
    rw [endState_of_ok hresult] at hleft
    rw [endState, bind_of_ok hresult]
    exact hf a st' hleft
  | error e st' =>
    rw [endState_of_error hresult] at hleft
    rw [endState, bind_of_error hresult]
    exact hleft

theorem given_bind {r : Except Error α} (hf : ∀ a, r = .ok a → Preserves P (f a)) :
    Preserves P (Client.given r >>= f) := by
  intro st hst
  cases r with
  | ok a => exact hf a rfl st hst
  | error e => exact hst

theorem get_bind {f : Client × σ → Talk σ β} (hf : ∀ st, P st → P (endState (f st) st)) :
    Preserves P (get >>= f) := hf

theorem onLink {op : σ → Except Error α × σ} (hop : ∀ c l, P (c, l) → P (c, (op l).2)) :
    Preserves P (onLink op) := by
  rintro ⟨c, l⟩ hst
  have hleft := hop c l hst
  rcases hresult : op l with ⟨_ | _, l'⟩ <;>
    simpa only [endState, lastState, Client.onLink, hresult] using hleft

variable {t : Transport σ}

/-- Requests are sent one by one. -/
theorem sendAll {rs : List Request} (hsend : ∀ r ∈ rs, ∀ data, r.encode = .ok data →
    ∀ c l, P (c, l) → P (c, (t.send data l).2)) : Preserves P (sendAll t rs) := by
  induction rs with
  | nil => exact pure ()
  | cons r rs ih =>
    obtain ⟨hfirst, hrest⟩ := List.forall_mem_cons.mp hsend
    exact given_bind fun data hdata => (onLink (hfirst data hdata)).bind fun _ => ih hrest

theorem collect (hreceive : ∀ c l, P (c, l) → P (c, (t.receive l).2)) (callId : UInt32)
    (supply : Nat) (a : Assembly) : Preserves P (collect t callId supply a) := by
  induction supply generalizing a with
  | zero => exact (onLink hreceive).bind fun _ => throw _
  | succ supply ih =>
    refine (onLink hreceive).bind fun data => (given _).bind fun unit => ?_
    rcases takeReply callId a unit with ⟨_ | _ | _, a'⟩
    · exact throw _
    · exact ih a'
    · exact pure _

/-- A call sends the fragments of its request and receives. -/
theorem call {opnum : UInt16} {stub : List UInt8}
    (hid : ∀ c l callId, P (c, l) → P ({ c with callId }, l))
    (hsend : ∀ c l a callId rs, P (c, l) → c.association = some a →
      Request.fragments callId a.contextId opnum none stub a.maxTransmit = .ok rs →
      ∀ r ∈ rs, ∀ data, r.encode = .ok data → P (c, (t.send data l).2))
    (hreceive : ∀ c l, P (c, l) → P (c, (t.receive l).2)) : Preserves P (call t opnum stub) := by
  rintro ⟨c, l⟩ hst
  cases ha : c.association with
  | none =>
    rw [endState_of_error (call_of_unbound ha opnum stub)]
    exact hst
  | some a =>
    -- The association stays as it is while the fragments go out.
    let Q : Client × σ → Prop := fun st => P st ∧ st.1.association = some a
    have hreceive' : ∀ c l, Q (c, l) → Q (c, (t.receive l).2) :=
      fun c l hst => ⟨hreceive c l hst.1, hst.2⟩
    have hrest : Preserves Q (do
        let rs ← Client.given
          (Request.fragments (c.callId + 1) a.contextId opnum none stub a.maxTransmit)
        Client.sendAll t rs
        Client.collect t (c.callId + 1) (t.supply (← get).2) .awaitingFirst) := by
      refine given_bind fun rs hrs => (sendAll fun r hr data hdata c' l' hst => ?_).bind fun _ => ?_
      · exact ⟨hsend c' l' a (c.callId + 1) rs hst.1 hst.2 hrs r hr data hdata, hst.2⟩
      · exact get_bind fun st hst => collect hreceive' _ _ _ st hst
    obtain ⟨hkept, -⟩ := hrest ({ c with callId := c.callId + 1 }, l) ⟨hid c l _ hst, ha⟩
    rw [endState, call_of_bound ha]
    exact hkept

end Preserves

end Keeping

/-! ## The trace makes no difference -/

variable {σ α β : Type}

/-- The result without the trace. -/
def forget : EStateM.Result Error (Client × Traced σ) α → EStateM.Result Error (Client × σ) α
  | .ok a (c, l) => .ok a (c, l.link)
  | .error e (c, l) => .error e (c, l.link)

/-- The same comes of both, but for the trace. -/
def Shadows (x : Talk (Traced σ) α) (y : Talk σ α) : Prop :=
  ∀ c l, forget (x (c, l)) = y (c, l.link)

namespace Shadows

variable {x : Talk (Traced σ) α} {y : Talk σ α} {f : α → Talk (Traced σ) β} {g : α → Talk σ β}
  (t : Transport σ)

theorem pure (a : α) : Shadows (Pure.pure a : Talk (Traced σ) α) (Pure.pure a) := fun _ _ => rfl

theorem throw (e : Error) : Shadows (throw e : Talk (Traced σ) α) (throw e) := fun _ _ => rfl

theorem bind (hx : Shadows x y) (hf : ∀ a, Shadows (f a) (g a)) :
    Shadows (x >>= f) (y >>= g) := by
  intro c l
  have hfirst := hx c l
  change forget (EStateM.bind x f (c, l)) = EStateM.bind y g (c, l.link)
  unfold EStateM.bind
  rcases hresult : x (c, l) with ⟨a, c', l'⟩ | ⟨e, c', l'⟩
  · rw [hresult] at hfirst
    rw [← hfirst]
    exact hf a c' l'
  · rw [hresult] at hfirst
    rw [← hfirst]
    rfl

theorem get_bind {f : Client × Traced σ → Talk (Traced σ) β} {g : Client × σ → Talk σ β}
    (hf : ∀ c l, Shadows (f (c, l)) (g (c, l.link))) : Shadows (get >>= f) (get >>= g) :=
  fun c l => hf c l c l

theorem onLink {op : Traced σ → Except Error α × Traced σ} {op' : σ → Except Error α × σ}
    (hop : ∀ l, ((op l).1, (op l).2.link) = op' l.link) : Shadows (onLink op) (onLink op') := by
  intro c l
  have hlink := hop l
  rcases hresult : op l with ⟨_ | _, l'⟩ <;>
    · rw [hresult] at hlink
      simp only [Client.onLink, hresult, ← hlink, forget]

theorem send (data : List UInt8) : Shadows (Client.onLink (t.traced.send data))
    (Client.onLink (t.send data)) := onLink fun _ => rfl

theorem receive : Shadows (Client.onLink t.traced.receive) (Client.onLink t.receive) := by
  refine onLink fun l => ?_
  simp only [Transport.traced]
  rcases t.receive l.link with ⟨_ | _, l'⟩ <;> rfl

/-- Each step comes to the same. -/
theorem compatible : Compatible t.traced t Traced.link (fun _ => Shadows) where
  pure := pure
  throw := throw
  bind := bind
  get_bind := get_bind
  set _ _ := fun _ _ => rfl
  send := send t
  receive := receive t
  supply _ := rfl

theorem call (opnum : UInt16) (stub : List UInt8) :
    Shadows (call t.traced opnum stub) (call t opnum stub) := (compatible t).call opnum stub

end Shadows

end Client

end RemoteCall
