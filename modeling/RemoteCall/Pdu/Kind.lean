/-! The kinds of protocol data units, and the flag byte of their header. -/

namespace RemoteCall

inductive PacketKind
  | request
  | response
  | fault
  | bind
  | bindAck
  | bindNak
  | alterContext
  | alterContextResponse
  | auth3
  | shutdown
  | cancelRequest
  | orphaned
  deriving DecidableEq, Repr

namespace PacketKind

def tag : PacketKind → UInt8
  | request => 0
  | response => 2
  | fault => 3
  | bind => 11
  | bindAck => 12
  | bindNak => 13
  | alterContext => 14
  | alterContextResponse => 15
  | auth3 => 16
  | shutdown => 17
  | cancelRequest => 18
  | orphaned => 19

def ofTag? (n : UInt8) : Option PacketKind :=
  match n.toNat with
  | 0 => some request
  | 2 => some response
  | 3 => some fault
  | 11 => some bind
  | 12 => some bindAck
  | 13 => some bindNak
  | 14 => some alterContext
  | 15 => some alterContextResponse
  | 16 => some auth3
  | 17 => some shutdown
  | 18 => some cancelRequest
  | 19 => some orphaned
  | _ => none

def name : PacketKind → String
  | request => "Request"
  | response => "Response"
  | fault => "Fault"
  | bind => "Bind"
  | bindAck => "BindAck"
  | bindNak => "BindNak"
  | alterContext => "AlterContext"
  | alterContextResponse => "AlterContextResp"
  | auth3 => "Auth3"
  | shutdown => "Shutdown"
  | cancelRequest => "CancelRequest"
  | orphaned => "Orphaned"

@[simp] theorem ofTag?_tag (k : PacketKind) : ofTag? k.tag = some k := by cases k <;> rfl

end PacketKind

/-- The flag byte. Bits without a name are kept. -/
structure Flags where
  bits : UInt8
  deriving DecidableEq, Repr

namespace Flags

def empty : Flags := ⟨0⟩
def firstFragment : Flags := ⟨0x01⟩
def lastFragment : Flags := ⟨0x02⟩
def didNotExecute : Flags := ⟨0x20⟩
def objectUuid : Flags := ⟨0x80⟩

def union (f g : Flags) : Flags := ⟨f.bits ||| g.bits⟩

def has (f g : Flags) : Bool := f.bits &&& g.bits == g.bits

/-- The flags of a unit that is both the first and the last fragment. -/
def complete : Flags := firstFragment.union lastFragment

def isFirst (f : Flags) : Bool := f.has firstFragment
def isLast (f : Flags) : Bool := f.has lastFragment
def hasObject (f : Flags) : Bool := f.has objectUuid

end Flags

end RemoteCall
