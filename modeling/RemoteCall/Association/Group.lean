/-! Numbers of association groups. Zero stands for a group that is yet to be given, so it is never
handed out. -/

namespace RemoteCall

/-- Hands out the numbers of the groups of one listener. -/
structure GroupAllocator where
  next : UInt32
  deriving DecidableEq, Repr

namespace GroupAllocator

/-- The first number handed out is the given one, or 1 in the place of zero. -/
def startingAt (first : UInt32) : GroupAllocator := ⟨if first = 0 then 1 else first⟩

def new : GroupAllocator := startingAt 1

def allocate (g : GroupAllocator) : UInt32 × GroupAllocator :=
  (g.next, startingAt (g.next + 1))

/-- The next `n` numbers. -/
def take (g : GroupAllocator) : Nat → List UInt32
  | 0 => []
  | n + 1 => g.allocate.1 :: g.allocate.2.take n

end GroupAllocator

end RemoteCall
