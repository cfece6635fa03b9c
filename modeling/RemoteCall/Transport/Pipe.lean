import RemoteCall.Pipe.Basic
import RemoteCall.Transport.Basic
/-! Talking through an open pipe. Each write runs the endpoint behind the pipe. -/

namespace RemoteCall

structure PipeLink where
  /-- The name that the pipe was asked for by. -/
  path : String
  pipe : Pipe
  groups : GroupAllocator
  isConnected : Bool

namespace PipeLink

def of (path : String) (pipe : Pipe) (groups : GroupAllocator) : PipeLink := ⟨path, pipe, groups, true⟩

def send (data : List UInt8) (l : PipeLink) : Except Error Unit × PipeLink :=
  if l.isConnected then
    let (result, pipe, groups) := l.pipe.write l.groups data
    (result.map fun _ => (), { l with pipe, groups })
  else (.error (.notConnected .pipe), l)

def receive (l : PipeLink) : Except Error (List UInt8) × PipeLink :=
  if l.isConnected then
    match l.pipe.readUnit with
    | (some bytes, pipe) => (.ok bytes, { l with pipe })
    | (none, _) => (.error (.invalidState (.nothingPending l.path)), l)
  else (.error (.notConnected .pipe), l)

def close (l : PipeLink) : Except Error Unit × PipeLink := (.ok (), { l with isConnected := false })

theorem available_receive_lt {l l' : PipeLink} {bytes : List UInt8}
    (h : l.receive = (.ok bytes, l')) : l'.pipe.available < l.pipe.available := by
  unfold receive at h
  split at h
  · split at h
    · rename_i pipe hread
      obtain ⟨rfl, rfl⟩ := by simpa using h
      unfold Pipe.readUnit at hread
      split at hread
      · rename_i hfront
        obtain ⟨rfl, rfl⟩ := by simpa using hread
        exact length_rest_lt_of_front_unit hfront
      · simp at hread
    · simp at h
  · simp at h

def transport : Transport PipeLink where
  kind := .namedPipe
  send := send
  receive := receive
  close := close
  isConnected := (·.isConnected)
  supply l := l.pipe.available
  supply_lt := available_receive_lt

end PipeLink

end RemoteCall
