import RemoteCall.Error
/-! What a client talks through. -/

namespace RemoteCall

inductive TransportKind
  | namedPipe
  | tcp
  deriving DecidableEq, Repr

def TransportKind.name : TransportKind → String
  | namedPipe => "NamedPipe"
  | tcp => "Tcp"

/-- A link with state `σ` that carries one unit at a time. An operation that fails may have changed
the state. -/
structure Transport (σ : Type) where
  kind : TransportKind
  send : List UInt8 → σ → Except Error Unit × σ
  receive : σ → Except Error (List UInt8) × σ
  close : σ → Except Error Unit × σ
  isConnected : σ → Bool
  /-- How many receives can still succeed before the next send, at most. -/
  supply : σ → Nat
  supply_lt : ∀ {s s' : σ} {bytes : List UInt8}, receive s = (.ok bytes, s') → supply s' < supply s

end RemoteCall
