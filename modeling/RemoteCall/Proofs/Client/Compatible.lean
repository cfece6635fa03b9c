import RemoteCall.Client

/-! A client over two links. A relation between what it does over the one and over the other link that
is respected by each step (`Client.Compatible`) is respected by everything that a client does. -/

namespace RemoteCall.Client

open Ndr

variable {σ τ : Type}

/-- A relation that the steps of a client over two transports respect. Each link of the first one has a
link of the second one that stands for it. -/
structure Compatible (t : Transport σ) (u : Transport τ) (stand : σ → τ)
    (R : (α : Type) → Talk σ α → Talk τ α → Prop) : Prop where
  pure {α : Type} (a : α) : R α (Pure.pure a) (Pure.pure a)
  throw {α : Type} (e : Error) : R α (throw e) (throw e)
  bind {α β : Type} {x : Talk σ α} {y : Talk τ α} {f : α → Talk σ β} {g : α → Talk τ β} :
    R α x y → (∀ a, R β (f a) (g a)) → R β (x >>= f) (y >>= g)
  get_bind {β : Type} {f : Client × σ → Talk σ β} {g : Client × τ → Talk τ β} :
    (∀ c l, R β (f (c, l)) (g (c, stand l))) → R β (get >>= f) (get >>= g)
  set (c : Client) (l : σ) : R PUnit (set (c, l)) (set (c, stand l))
  send (data : List UInt8) : R Unit (onLink (t.send data)) (onLink (u.send data))
  receive : R (List UInt8) (onLink t.receive) (onLink u.receive)
  supply (l : σ) : u.supply (stand l) = t.supply l

namespace Compatible

variable {t : Transport σ} {u : Transport τ} {stand : σ → τ}
  {R : (α : Type) → Talk σ α → Talk τ α → Prop} (h : Compatible t u stand R)
include h

theorem given {α : Type} (r : Except Error α) : R α (given r) (given r) := by
  cases r with
  | ok a => exact h.pure a
  | error e => exact h.throw e

theorem nextCallId : R UInt32 nextCallId nextCallId :=
  h.get_bind fun c l => h.bind (h.set { c with callId := c.callId + 1 } l) fun _ => h.pure _

theorem setAssociation (association : Option Association) :
    R PUnit (modify fun (c, l) => ({ c with association }, l))
      (modify fun (c, l) => ({ c with association }, l)) := by
  change R PUnit (get >>= fun st => MonadStateOf.set ({ st.1 with association }, st.2))
    (get >>= fun st => MonadStateOf.set ({ st.1 with association }, st.2))
  exact h.get_bind fun c l => h.set { c with association } l

theorem clientBind (i : Interface) : R Association (Client.bind t i) (Client.bind u i) := by
  refine h.bind h.nextCallId fun callId => h.get_bind fun c l => ?_
  refine h.bind (h.given _) fun data => h.bind (h.send data) fun _ => h.bind h.receive fun reply => ?_
  refine h.bind (h.given _) fun unit => ?_
  cases unit with
  | bindAck ack =>
    exact h.bind (h.given _) fun a => h.bind (h.setAssociation (some a)) fun _ => h.pure a
  | _ => exact h.throw _

/-- Run: requests are sent one by one. -/
theorem sendAll (rs : List Request) : R Unit (sendAll t rs) (sendAll u rs) := by
  induction rs with
  | nil => exact h.pure ()
  | cons r rs ih => exact h.bind (h.given _) fun data => h.bind (h.send data) fun _ => ih

/-- Run: replies are received until the payload is complete. -/
theorem collect (callId : UInt32) (supply : Nat) (a : Assembly) :
    R (List UInt8) (collect t callId supply a) (collect u callId supply a) := by
  induction supply generalizing a with
  | zero => exact h.bind h.receive fun _ => h.throw _
  | succ supply ih =>
    refine h.bind h.receive fun data => h.bind (h.given _) fun unit => ?_
    rcases takeReply callId a unit with ⟨_ | _ | _, a'⟩
    · exact h.throw _
    · exact ih a'
    · exact h.pure _

theorem call (opnum : UInt16) (stub : List UInt8) :
    R (List UInt8) (call t opnum stub) (call u opnum stub) := by
  refine h.get_bind fun c l => ?_
  cases c.association with
  | none => exact h.throw _
  | some association =>
    refine h.bind h.nextCallId fun callId => h.bind (h.given _) fun rs => ?_
    refine h.bind (h.sendAll rs) fun _ => h.get_bind fun _ l => ?_
    dsimp only
    rw [h.supply l]
    exact h.collect callId _ _

theorem ensureBound (i : Interface) : R Unit (ensureBound i) (ensureBound i) := by
  refine h.get_bind fun c l => ?_
  dsimp only
  cases c.association with
  | none => exact h.throw _
  | some a =>
    dsimp only
    split
    · exact h.throw _
    · exact h.pure _

theorem invoke {α β : Type} [Message α] [Message β] (opnum : UInt16) (request : α) :
    R β (invoke t opnum request β) (invoke u opnum request β) :=
  h.bind (h.given _) fun _ => h.bind (h.call _ _) fun _ => h.given _

end Compatible

end RemoteCall.Client
