import RemoteCall.Endpoint
import RemoteCall.Transport.Basic
/-! Talking to an endpoint in the same process. The answers queue up, one unit at a time. -/

namespace RemoteCall

structure DirectLink where
  endpoint : Endpoint
  groups : GroupAllocator
  waiting : List (List UInt8)
  isConnected : Bool

namespace DirectLink

def of (e : Endpoint) (g : GroupAllocator) : DirectLink := ⟨e, g, [], true⟩

def send (data : List UInt8) (l : DirectLink) : Except Error Unit × DirectLink :=
  let t := l.endpoint.process l.groups data
  let l := { l with endpoint := t.endpoint, groups := t.groups }
  match t.answers with
  | .ok answers => (.ok (), { l with waiting := l.waiting ++ answers })
  | .error e => (.error e, l)

def receive (l : DirectLink) : Except Error (List UInt8) × DirectLink :=
  match l.waiting with
  | [] => (.error .connectionClosed, l)
  | bytes :: waiting => (.ok bytes, { l with waiting })

/-- An endpoint in the same process never goes away, so a closed link still answers. -/
def close (l : DirectLink) : Except Error Unit × DirectLink := (.ok (), { l with isConnected := false })

theorem waiting_receive_lt {l l' : DirectLink} {bytes : List UInt8}
    (h : l.receive = (.ok bytes, l')) : l'.waiting.length < l.waiting.length := by
  unfold receive at h
  split at h
  · simp at h
  · rename_i hw
    obtain ⟨_, rfl⟩ := by simpa using h
    simp [hw]

def transport : Transport DirectLink where
  kind := .namedPipe
  send := send
  receive := receive
  close := close
  isConnected := (·.isConnected)
  supply l := l.waiting.length
  supply_lt := waiting_receive_lt

end DirectLink

end RemoteCall
