import RemoteCall.Server
import RemoteCall.Transport.Basic
/-! Talking over a connection to a server. -/

namespace RemoteCall

/-- Whether the network has a way to the server. -/
inductive Network
  | reachable
  | unreachable
  deriving DecidableEq, Repr

/-- What the system says when there is no way. -/
def networkUnreachable : SystemError := ⟨101, "NetworkUnreachable", "Network is unreachable"⟩

structure TcpLink where
  /-- The other side, while connected. -/
  connection : Option Connection
  /-- Bytes from the server that are not yet taken. -/
  arrived : List UInt8

namespace TcpLink

def unconnected : TcpLink := ⟨none, []⟩

def connect (network : Network) (s : Server) : Except Error TcpLink :=
  match network with
  | .reachable => .ok ⟨some (.accept s), []⟩
  | .unreachable => .error (.system networkUnreachable)

def send (data : List UInt8) (l : TcpLink) : Except Error Unit × TcpLink :=
  match l.connection with
  | none => (.error (.notConnected .tcp), l)
  | some c =>
    let (written, c) := c.receive data
    (.ok (), ⟨some c, l.arrived ++ written⟩)

/-- A server that keeps the connection open and sends nothing lets the wait run out. -/
def receive (l : TcpLink) : Except Error (List UInt8) × TcpLink :=
  match l.connection with
  | none => (.error (.notConnected .tcp), l)
  | some c =>
    match front l.arrived with
    | .unit bytes rest => (.ok bytes, { l with arrived := rest })
    | .badLabel e => (.error e, l)
    | .tooShort n => (.error (Front.tooShortError n), l)
    | .incomplete => (.error (if c.isOpen then .timeout else .connectionClosed), l)

def close (_ : TcpLink) : Except Error Unit × TcpLink := (.ok (), unconnected)

theorem arrived_receive_lt {l l' : TcpLink} {bytes : List UInt8}
    (h : l.receive = (.ok bytes, l')) : l'.arrived.length < l.arrived.length := by
  unfold receive at h
  split at h
  · simp at h
  · split at h
    · rename_i hfront
      obtain ⟨rfl, rfl⟩ := by simpa using h
      exact length_rest_lt_of_front_unit hfront
    · simp at h
    · simp at h
    · simp at h

def transport : Transport TcpLink where
  kind := .tcp
  send := send
  receive := receive
  close := close
  isConnected l := l.connection.isSome
  supply l := l.arrived.length
  supply_lt := arrived_receive_lt

end TcpLink

end RemoteCall
