/-! How much of a stream one read takes (`Intake`): as much as there is room for in the buffer. The
content of a buffer moves on as units are cut off its front; when the room behind it runs out, the
content moves back to the start if that pays, and otherwise more room is allocated (`Room`). -/

namespace RemoteCall

/-- A state that decides how much of a stream each read takes. All that is asked of it is that a read
takes something. -/
class Intake (ρ : Type) where
  /-- Makes ready for a read behind a content of that length, with so many bytes missing of a unit,
  and gives how many bytes the read takes at most. -/
  take : ρ → (length missing : Nat) → Nat × ρ
  /-- Bytes are cut off the front of the content. -/
  cut : ρ → Nat → ρ
  take_pos (r : ρ) (length missing : Nat) : 0 < (take r length missing).1

/-- The room that is allocated for a buffer. -/
structure Room where
  total : Nat
  /-- Where the content starts. -/
  start : Nat
  deriving DecidableEq, Repr

namespace Room

def none : Room := ⟨0, 0⟩

/-- The room behind a content of that length. -/
def spare (r : Room) (length : Nat) : Nat := r.total - r.start - length

/-- Makes room behind the content. Content is only moved where it does not overlap itself. -/
def reserve (r : Room) (length additional : Nat) : Room :=
  if additional ≤ r.spare length then r
  else if length + additional ≤ r.total ∧ length ≤ r.start then { r with start := 0 }
  else { r with total := max (2 * r.total) (r.start + length + additional) }

theorem le_spare_reserve (r : Room) (length additional : Nat) :
    additional ≤ (r.reserve length additional).spare length := by
  unfold reserve
  split
  · assumption
  · split <;> simp only [spare] <;> omega

/-- Room for a read: for what is missing of a unit, and in any case for something. -/
def ready (r : Room) (length missing : Nat) : Room :=
  let r := r.reserve length missing
  if r.spare length = 0 then r.reserve length 64 else r

theorem spare_ready_pos (r : Room) (length missing : Nat) :
    0 < (r.ready length missing).spare length := by
  unfold ready
  simp only
  split
  · exact Nat.lt_of_lt_of_le (by decide) (le_spare_reserve _ length 64)
  · omega

/-- Cuts bytes off the front of the content. -/
def cut (r : Room) (n : Nat) : Room := { r with start := r.start + n }

instance : Intake Room where
  take r length missing := ((r.ready length missing).spare length, r.ready length missing)
  cut := cut
  take_pos := spare_ready_pos

end Room

end RemoteCall
