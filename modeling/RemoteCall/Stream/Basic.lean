import RemoteCall.Stream.Front
import RemoteCall.Stream.Room
/-! Byte streams and the units in them. How the bytes arrive makes no difference to the units, only
to how far the stream has been read when one of them is found to be malformed. -/

namespace RemoteCall

/-- A stream: the bytes that were read, their room, and the pieces in which the others arrive. The
stream ends with its pieces, or before the first piece that holds nothing. -/
structure Stream (ρ : Type) where
  buffer : List UInt8
  room : ρ
  arriving : List (List UInt8)

namespace Stream

def ofPieces (pieces : List (List UInt8)) : Stream Room := ⟨[], .none, pieces⟩

variable {ρ : Type}

/-- The number of bytes that are still to arrive. -/
def ahead (s : Stream ρ) : Nat := s.arriving.flatten.length

/-- The number of bytes that are still to come out. -/
def size (s : Stream ρ) : Nat := s.buffer.length + s.ahead

/-- How many bytes are missing of a unit whose header is there. -/
def missing (buffer : List UInt8) : Nat :=
  match Header.peekLength buffer with
  | .ok n => n - buffer.length
  | .error _ => 0

/-- Puts back what a read has left of a piece. -/
def remaining (piece : List UInt8) (pieces : List (List UInt8)) : List (List UInt8) :=
  if piece.isEmpty then pieces else piece :: pieces

theorem length_flatten_remaining (piece : List UInt8) (pieces : List (List UInt8)) :
    (remaining piece pieces).flatten.length = piece.length + pieces.flatten.length := by
  unfold remaining
  split
  · simp_all
  · simp

variable [Intake ρ]

/-- One read: as much of the next piece as there is room for. -/
def pull (s : Stream ρ) : Option (Stream ρ) :=
  match s.arriving with
  | (b :: bs) :: pieces =>
    let (n, room) := Intake.take s.room s.buffer.length (missing s.buffer)
    some ⟨s.buffer ++ (b :: bs).take n, room, remaining ((b :: bs).drop n) pieces⟩
  | _ => none

theorem ahead_pull_lt {s s' : Stream ρ} (h : s.pull = some s') : s'.ahead < s.ahead := by
  unfold pull at h
  split at h
  · rename_i b bs pieces harriving
    obtain rfl := by simpa using h
    have := Intake.take_pos s.room s.buffer.length (missing s.buffer)
    simp only [ahead, harriving, length_flatten_remaining, List.length_drop, List.flatten_cons,
      List.length_append, List.length_cons]
    omega
  · simp at h

theorem size_pull {s s' : Stream ρ} (h : s.pull = some s') : s'.size = s.size := by
  unfold pull at h
  split at h
  · rename_i b bs pieces harriving
    obtain rfl := by simpa using h
    simp only [size, ahead, harriving, length_flatten_remaining, List.length_drop,
      List.length_take, List.flatten_cons, List.length_append, List.length_cons]
    omega
  · simp at h

/-- At the end: nothing is left, or a part of a unit. -/
def atEnd (buffer : List UInt8) : Except Error (Option (List UInt8)) :=
  if buffer.isEmpty then .ok none else .error .connectionClosed

/-- The next unit, or none at the end of the stream. -/
def read (s : Stream ρ) : Except Error (Option (List UInt8)) × Stream ρ :=
  match front s.buffer with
  | .unit bytes rest =>
    (.ok (some bytes), { s with buffer := rest, room := Intake.cut s.room bytes.length })
  | .badLabel e => (.error e, s)
  | .tooShort n => (.error (Front.tooShortError n), s)
  | .incomplete =>
    match _h : s.pull with
    | some s' => read s'
    | none => (atEnd s.buffer, s)
termination_by s.ahead
decreasing_by exact ahead_pull_lt _h

theorem size_read_lt {s s' : Stream ρ} {bytes : List UInt8} (h : s.read = (.ok (some bytes), s')) :
    s'.size < s.size := by
  unfold read at h
  split at h
  · rename_i hfront
    obtain ⟨rfl, rfl⟩ := by simpa using h
    have := length_rest_lt_of_front_unit hfront
    simp only [size, ahead]
    omega
  · simp at h
  · simp at h
  · split at h
    · rename_i next hpull
      rw [← size_pull hpull]
      exact size_read_lt h
    · simp only [Prod.mk.injEq] at h
      unfold atEnd at h
      split at h <;> simp at h
termination_by s.ahead
decreasing_by exact ahead_pull_lt ‹_›

/-- All units of a stream, how it ends, and what is left of it. -/
def readAll (s : Stream ρ) : List (List UInt8) × Except Error Unit × Stream ρ :=
  match _h : s.read with
  | (.ok (some bytes), rest) =>
    let (units, ending, final) := readAll rest
    (bytes :: units, ending, final)
  | (.ok none, rest) => ([], .ok (), rest)
  | (.error e, rest) => ([], .error e, rest)
termination_by s.size
decreasing_by exact size_read_lt _h

end Stream

end RemoteCall
