import RemoteCall.Proofs.Client.Calls
import RemoteCall.Proofs.Endpoint.Sending

/-! A client that goes on and on: any binds, calls and typed calls one after the other, whether they
succeed or not. Through a pipe that nobody else uses, each of them leaves the pipe at rest. -/

namespace RemoteCall

/-- The link when the allocator has gone on, for other pipes of the same listener. -/
def PipeLink.withGroups (groups : GroupAllocator) (l : PipeLink) : PipeLink := { l with groups }

namespace Client

open Ndr

variable {σ : Type}

/-- What a client can be asked to do. -/
inductive Operation
  | bind (i : Interface)
  | call (opnum : UInt16) (stub : List UInt8)
  | invoke {α : Type} [Message α] (opnum : UInt16) (request : α) (β : Type) [Message β]
  | shareEnum (server : String) (level : UInt32)
  | shareInfo (server share : String) (level : UInt32)
  | serverInfo (server : String) (level : UInt32)
  | workstationInfo (server : String) (level : UInt32)

namespace Operation

def perform (t : Transport σ) : Operation → Talk σ Unit
  | bind i => do let _ ← Client.bind t i
  | call opnum stub => do let _ ← Client.call t opnum stub
  | invoke opnum request β => do let _ ← Client.invoke t opnum request β
  | shareEnum server level => do let _ ← Client.shareEnum t server level
  | shareInfo server share level => do let _ ← Client.shareInfo t server share level
  | serverInfo server level => do let _ ← Client.serverInfo t server level
  | workstationInfo server level => do let _ ← Client.workstationInfo t server level

def isBind : Operation → Bool
  | bind _ => true
  | _ => false

end Operation

/-- Operations one after the other. Before each of them the link may have changed, by what it shares
with others. -/
def conduct {γ : Type} (t : Transport σ) (change : γ → σ → σ) :
    List (γ × Operation) → Client × σ → Client × σ
  | [], st => st
  | (g, op) :: ops, (c, l) => conduct t change ops (endState (op.perform t) (c, change g l))

/-! ## What all operations have in common -/

section Common

variable {α β γ : Type} {t : Transport σ} {P : Client × σ → Prop}

namespace Preserves

theorem ensureBound (i : Interface) : Preserves P (ensureBound i) := by
  refine get_bind fun (c, l) hst => ?_
  dsimp only
  cases c.association with
  | none => exact hst
  | some a =>
    dsimp only
    split
    · exact hst
    · exact hst

theorem invoke [Message α] [Message β] (hcall : ∀ opnum stub, Preserves P (Client.call t opnum stub))
    (opnum : UInt16) (request : α) : Preserves P (Client.invoke t opnum request β) :=
  (given _).bind fun _ => (hcall _ _).bind fun _ => given _

/-- All but binds are calls. -/
theorem perform (hcall : ∀ opnum stub, Preserves P (Client.call t opnum stub)) {op : Operation}
    (hop : op.isBind = false) : Preserves P (op.perform t) := by
  cases op with
  | bind i => cases hop
  | call opnum stub => exact (hcall opnum stub).bind fun _ => pure _
  | invoke opnum request β => exact (invoke hcall opnum request).bind fun _ => pure _
  | _ => exact ((ensureBound _).bind fun _ => invoke hcall _ _).bind fun _ => pure _

/-- Run: what each operation keeps is kept by all of them. -/
theorem conduct {change : γ → σ → σ} {ops : List (γ × Operation)}
    (hchange : ∀ g c l, P (c, l) → P (c, change g l))
    (hops : ∀ x ∈ ops, Preserves P (x.2.perform t)) {st : Client × σ} (hst : P st) :
    P (conduct t change ops st) := by
  induction ops generalizing st with
  | nil => exact hst
  | cons x ops ih =>
    obtain ⟨hop, hops⟩ := List.forall_mem_cons.mp hops
    exact ih hops (hop _ (hchange x.1 st.1 st.2 hst))

end Preserves

theorem Compatible.perform {τ : Type} {u : Transport τ} {stand : σ → τ}
    {R : (α : Type) → Talk σ α → Talk τ α → Prop} (h : Compatible t u stand R) (op : Operation) :
    R Unit (op.perform t) (op.perform u) := by
  cases op with
  | bind i => exact h.bind (h.clientBind i) fun _ => h.pure _
  | call opnum stub => exact h.bind (h.call opnum stub) fun _ => h.pure _
  | invoke opnum request β => exact h.bind (h.invoke opnum request) fun _ => h.pure _
  | _ =>
    exact h.bind (h.bind (h.ensureBound _) fun _ => h.invoke _ _) fun _ => h.pure _

namespace Shadows

theorem endState {x : Talk (Traced σ) α} {y : Talk σ α} (h : Shadows x y) (c : Client)
    (l : Traced σ) : ((endState x (c, l)).1, (endState x (c, l)).2.link) =
      endState y (c, l.link) := by
  have hforget := h c l
  unfold Client.endState
  rw [← hforget]
  cases x (c, l) <;> rfl

/-- Run: the trace makes no difference. -/
theorem conduct (change : γ → σ → σ) (ops : List (γ × Operation)) (c : Client) (l : Traced σ) :
    let st := conduct t.traced (fun g l => { l with link := change g l.link }) ops (c, l)
    (st.1, st.2.link) = conduct t change ops (c, l.link) := by
  induction ops generalizing c l with
  | nil => rfl
  | cons x ops ih =>
    have hfirst := Shadows.endState ((compatible t).perform x.2) c { l with link := change x.1 l.link }
    exact (ih _ _).trans (congrArg (Client.conduct t change ops) hfirst)

end Shadows

end Common

/-! ## A pipe at rest -/

theorem Receptive.withGroups {l : PipeLink} (h : Receptive l) (groups : GroupAllocator) :
    Receptive (l.withGroups groups) := ⟨h.connected, h.inbound, h.size, h.room⟩

/-- The pipe of the service can be talked through, and nothing goes on in it. -/
structure Rests (s : Service) (config : ClientConfig) (st : Client × PipeLink) : Prop where
  config : st.1.config = config
  receptive : Receptive st.2
  quiet : Quiet st.2
  source : st.2.pipe.endpoint.source = .fixed
  service : st.2.pipe.endpoint.service = some s

namespace Rests

variable {s : Service} {config : ClientConfig} {c c' : Client} {l : PipeLink}

theorem withClient (h : Rests s config (c, l)) (hc : c'.config = config) : Rests s config (c', l) :=
  ⟨hc, h.receptive, h.quiet, h.source, h.service⟩

theorem withGroups (h : Rests s config (c, l)) (groups : GroupAllocator) :
    Rests s config (c, l.withGroups groups) :=
  ⟨h.config, h.receptive.withGroups groups,
    ⟨h.quiet.inbound, h.quiet.outbound, h.quiet.assembly⟩, h.source, h.service⟩

/-- So it is when it has just been opened. -/
theorem of_open (s : Service) (c : Client) (id : Nat) (name path : String)
    (groups : GroupAllocator) :
    Rests s c.config (c, .of path (.of id name (.ofService s)) groups) :=
  ⟨rfl, ⟨rfl, rfl, Nat.le_refl _, (by decide : 24 < defaultMaxFragment.toNat)⟩, ⟨rfl, rfl, rfl⟩,
    rfl, rfl⟩

theorem boundService (h : Rests s config (c, l)) (p : Proposal) :
    l.pipe.endpoint.boundService p = some s := by
  unfold Endpoint.boundService
  rw [h.source]
  exact h.service

/-- The endpoint takes up any bind. -/
theorem boundLink (h : Rests s config (c, l)) (p : Proposal) :
    Rests s config (c, boundLink l p) where
  config := h.config
  receptive := h.receptive.answered []
    (Nat.lt_of_lt_of_le (by decide) (le_toNat_max p.maxReceive minFragment).2)
  quiet := h.quiet.answered _ rfl
  source := h.source
  service := h.boundService p

/-- A bind leaves the endpoint bound. If the client succeeds, it has associated with what the
endpoint granted. -/
theorem bind_cases (h : Rests s config (c, l)) (i : Interface) :
    ∃ p, p = proposal c.config (c.callId + 1) i ∧
      ((∃ err, bind PipeLink.transport i (c, l) =
          .error err ({ c with callId := c.callId + 1 }, Client.boundLink l p)) ∨
        ∃ a, associate i p (l.pipe.endpoint.bindAck l.groups p) = .ok a ∧
          bind PipeLink.transport i (c, l) = .ok a
            ({ c with callId := c.callId + 1, association := some a }, Client.boundLink l p)) := by
  refine ⟨_, rfl, ?_⟩
  obtain ⟨-, ⟨hconnected, -, hsize, -⟩, hquiet, -, -⟩ := h
  cases hencode : (Pdu.bindAck (l.pipe.endpoint.bindAck l.groups
      (proposal c.config (c.callId + 1) i))).encode with
  | error err => exact .inl ⟨err, bind_of_encode_error hconnected hsize hquiet rfl hencode⟩
  | ok b =>
    have hb := Pdu.written_of_encode (List.mem_singleton_self _) hencode
    have hbind := bind_of_written hconnected hsize hquiet rfl hb
    cases hassociate : associate i (proposal c.config (c.callId + 1) i)
        (l.pipe.endpoint.bindAck l.groups (proposal c.config (c.callId + 1) i)) with
    | error err =>
      rw [bind_of_error (given_of_error hassociate)] at hbind
      exact .inl ⟨err, hbind⟩
    | ok a =>
      rw [bind_of_ok (given_of_ok hassociate)] at hbind
      exact .inr ⟨a, rfl, hbind⟩

theorem preserves_bind (i : Interface) :
    Preserves (Rests s config) (bind PipeLink.transport i) := by
  rintro ⟨c, l⟩ h
  obtain ⟨p, -, ⟨err, hbind⟩ | ⟨a, -, hbind⟩⟩ := bind_cases h i
  · rw [endState_of_error hbind]
    exact (h.boundLink p).withClient h.config
  · rw [endState_of_ok hbind]
    exact (h.boundLink p).withClient h.config

/-- A call is answered, or it is not even sent. -/
theorem preserves_call (opnum : UInt16) (stub : List UInt8) :
    Preserves (Rests s config) (call PipeLink.transport opnum stub) := by
  rintro ⟨c, l⟩ h
  cases ha : c.association with
  | none =>
    rw [endState_of_error (call_of_unbound ha opnum stub)]
    exact h
  | some a =>
    by_cases hroom : Header.size + Request.fixedLength none < a.maxTransmit.toNat
    · have hcall := call_of_quiet h.receptive h.quiet ha hroom opnum stub
      have hrests :
          Rests s config ({ c with callId := c.callId + 1 }, replied l (c.callId + 1) []) :=
        ⟨h.config, h.receptive.answered [] h.receptive.room, h.quiet.answered _ rfl, h.source,
          h.service⟩
      unfold endState
      rw [hcall]
      cases l.pipe.endpoint.outcome a.contextId opnum stub <;> exact hrests
    · have hrs : Request.fragments (c.callId + 1) a.contextId opnum none stub a.maxTransmit =
          .error (.invalidParameter (.noRoom a.maxTransmit.toNat
            (Header.size + Request.fixedLength none))) := by
        rw [Request.fragments, roomFor_of_le (Nat.not_lt.mp hroom)]
        rfl
      have hcall := call_of_bound (t := PipeLink.transport) (l := l) ha opnum stub
      rw [bind_of_error (given_of_error hrs)] at hcall
      rw [endState_of_error hcall]
      exact h.withClient h.config

/-- Run: whatever a client does, its pipe is at rest afterwards. -/
theorem conduct (ops : List (GroupAllocator × Operation)) {st : Client × PipeLink}
    (hst : Rests s config st) :
    Rests s config (conduct PipeLink.transport PipeLink.withGroups ops st) := by
  refine Preserves.conduct (fun g c l h => h.withGroups g) (fun x _ => ?_) hst
  cases hbind : x.2.isBind with
  | false => exact Preserves.perform preserves_call hbind
  | true =>
    cases hop : x.2 with
    | bind i => exact (preserves_bind i).bind fun _ => .pure _
    | _ =>
      rw [hop] at hbind
      cases hbind

end Rests

end Client

end RemoteCall
