import RemoteCall.Transport.Basic
/-! A peer that follows a script: it answers with prepared units whatever it is sent, and in the end
not at all. -/

namespace RemoteCall

structure ScriptedLink where
  replies : List (List UInt8)
  /-- What a receive after the last reply comes to. -/
  ending : Error
  isConnected : Bool

namespace ScriptedLink

/-- A peer that hangs up after its replies. -/
def replying (replies : List (List UInt8)) : ScriptedLink := ⟨replies, .connectionClosed, true⟩

/-- A peer that never answers and never hangs up. -/
def silent : ScriptedLink := ⟨[], .timeout, true⟩

def receive (l : ScriptedLink) : Except Error (List UInt8) × ScriptedLink :=
  match l.replies with
  | [] => (.error l.ending, l)
  | bytes :: replies => (.ok bytes, { l with replies })

theorem replies_receive_lt {l l' : ScriptedLink} {bytes : List UInt8}
    (h : l.receive = (.ok bytes, l')) : l'.replies.length < l.replies.length := by
  unfold receive at h
  split at h
  · simp at h
  · rename_i hr
    obtain ⟨_, rfl⟩ := by simpa using h
    simp [hr]

def transport : Transport ScriptedLink where
  kind := .namedPipe
  send _ l := (.ok (), l)
  receive := receive
  close l := (.ok (), { l with isConnected := false })
  isConnected := (·.isConnected)
  supply l := l.replies.length
  supply_lt := replies_receive_lt

end ScriptedLink

end RemoteCall
