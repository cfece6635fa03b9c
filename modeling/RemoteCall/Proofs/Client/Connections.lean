import RemoteCall.Proofs.Client.Trace
import RemoteCall.Proofs.Stream.Connections
import RemoteCall.Transport.Tcp

/-! A client over a connection. Whatever succeeds through a pipe succeeds in the same way over a
connection to an endpoint that is in the same state (`Client.carriesOver_connection`). The converse
does not hold: a pipe does not take more at once than its greatest message. -/

namespace RemoteCall

/-! ## A connection that stands for a pipe -/

/-- The connection to the endpoint behind a pipe, with the same bytes under way in both directions. -/
def PipeLink.toConnection (l : PipeLink) : TcpLink :=
  ⟨some ⟨l.pipe.endpoint, l.groups, l.pipe.inbound, true⟩, l.pipe.outbound⟩

variable {l l' : PipeLink}

theorem Pipe.length_le_of_write {p : Pipe} {g : GroupAllocator} {data : List UInt8} {n : Nat}
    {next : Pipe × GroupAllocator} (h : p.write g data = (.ok n, next)) :
    data.length ≤ p.maxMessageSize := by
  unfold write at h
  split at h
  · cases h
  · omega

/-- The units that a write completes are those that the connection processes. -/
theorem TcpLink.send_toConnection {data : List UInt8} (h : PipeLink.send data l = (.ok (), l')) :
    send data l.toConnection = (.ok (), l'.toConnection) := by
  unfold PipeLink.send at h
  split at h
  case isFalse => cases h
  case isTrue =>
    rcases hwrite : l.pipe.write l.groups data with ⟨_ | n, p, g⟩
    · rw [hwrite] at h
      cases h
    rw [hwrite] at h
    cases h
    -- Both cut the same units off the bytes that have come in, and process them up to an error.
    let c : Connection := ⟨l.pipe.endpoint, l.groups, l.pipe.inbound ++ data, true⟩
    obtain ⟨us, framing, hframes⟩ := exists_frames c.buffer
    obtain ⟨buffer, isOpen, hanswer, hends, -⟩ := Connection.answer_frames rfl hframes
    obtain ⟨inbound, hwrite', hinbound⟩ :=
      Pipe.write_frames (Pipe.length_le_of_write hwrite) hframes l.groups
    rw [hwrite'] at hwrite
    cases hending : (l.pipe.endpoint.processAll l.groups us).ending framing with
    | error e =>
      rw [hending] at hwrite
      cases hwrite
    | ok tail =>
      obtain ⟨rfl, rfl⟩ := hends tail hending
      obtain rfl := hinbound _ hending
      rw [hending] at hwrite
      cases hwrite
      have hreceive : Connection.receive ⟨l.pipe.endpoint, l.groups, l.pipe.inbound, true⟩ data
          = c.answer := rfl
      simp only [send, PipeLink.toConnection, hreceive, hanswer]
      rfl

theorem TcpLink.receive_toConnection {bytes : List UInt8}
    (h : PipeLink.receive l = (.ok bytes, l')) :
    receive l.toConnection = (.ok bytes, l'.toConnection) := by
  unfold PipeLink.receive Pipe.readUnit at h
  split at h
  case isFalse => cases h
  case isTrue =>
    cases hfront : front l.pipe.outbound with
    | unit u rest =>
      rw [hfront] at h
      cases h
      simp only [receive, PipeLink.toConnection, hfront]
    | _ =>
      rw [hfront] at h
      cases h

namespace Client

/-! ## What carries over -/

section CarriesOver

variable {σ τ α β : Type} {stand : σ → τ}

/-- Whenever the first one succeeds, so does the second one, with the same result and on the link that
stands for the one that is left. -/
def CarriesOver (stand : σ → τ) (x : Talk σ α) (y : Talk τ α) : Prop :=
  ∀ c l a c' l', x (c, l) = .ok a (c', l') → y (c, stand l) = .ok a (c', stand l')

namespace CarriesOver

theorem pure (a : α) :
    CarriesOver stand (Pure.pure a : Talk σ α) (Pure.pure a) := by
  rintro c l _ _ _ ⟨⟩
  rfl

theorem throw (e : Error) : CarriesOver stand (throw e : Talk σ α) (throw e) := by
  rintro c l _ _ _ ⟨⟩

theorem bind {x : Talk σ α} {y : Talk τ α} {f : α → Talk σ β} {g : α → Talk τ β}
    (hx : CarriesOver stand x y) (hf : ∀ a, CarriesOver stand (f a) (g a)) :
    CarriesOver stand (x >>= f) (y >>= g) := by
  intro c l b c' l' h
  cases hresult : x (c, l) with
  | error e st =>
    rw [bind_of_error hresult] at h
    cases h
  | ok a st =>
    obtain ⟨c₁, l₁⟩ := st
    rw [bind_of_ok hresult] at h
    rw [bind_of_ok (hx c l a c₁ l₁ hresult)]
    exact hf a c₁ l₁ b c' l' h

theorem onLink {op : σ → Except Error α × σ} {op' : τ → Except Error α × τ}
    (hop : ∀ l a l', op l = (.ok a, l') → op' (stand l) = (.ok a, stand l')) :
    CarriesOver stand (onLink op) (onLink op') := by
  intro c l a c' l' h
  rcases hresult : op l with ⟨_ | b, l₁⟩
  · rw [onLink_of_error hresult] at h
    cases h
  · rw [onLink_of_ok hresult] at h
    cases h
    exact onLink_of_ok (hop l a l' hresult)

end CarriesOver

end CarriesOver

/-- Each step of a client through a pipe carries over to the connection that stands for the pipe. -/
theorem carriesOver_connection :
    Compatible PipeLink.transport TcpLink.transport PipeLink.toConnection
      (fun _ => CarriesOver PipeLink.toConnection) where
  pure := .pure
  throw := .throw
  bind := .bind
  get_bind hf c l := hf c l c l
  set c l := by
    rintro _ _ _ _ _ ⟨⟩
    rfl
  send _ := .onLink fun _ _ _ => TcpLink.send_toConnection
  receive := .onLink fun _ _ _ => TcpLink.receive_toConnection
  supply _ := rfl

end Client

end RemoteCall
