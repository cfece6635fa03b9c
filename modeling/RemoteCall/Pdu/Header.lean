import RemoteCall.Label
/-! The sixteen bytes that every protocol data unit starts with. The label in them decides the byte
order of all words of the unit, those of the header included. -/

namespace RemoteCall

structure Header where
  major : UInt8
  minor : UInt8
  kind : PacketKind
  flags : Flags
  representation : Representation
  fragmentLength : UInt16
  authLength : UInt16
  callId : UInt32
  deriving DecidableEq, Repr

namespace Header

/-- The number of bytes of a header. -/
def size : Nat := 16

/-- The only major version that is spoken here. -/
def version : UInt8 := 5

/-- A header as units start out with. Its lengths are filled in when the unit is written. -/
def of (kind : PacketKind) (callId : UInt32) : Header :=
  ⟨version, 0, kind, .complete, .standard, 0, 0, callId⟩

def encode (h : Header) (o : ByteOrder) (fragmentLength authLength : UInt16) : List UInt8 :=
  [h.major, h.minor, h.kind.tag, h.flags.bits] ++ h.representation.bytes
    ++ o.word16 fragmentLength ++ o.word16 authLength ++ o.word32 h.callId

@[simp] theorem length_encode (h : Header) (o : ByteOrder) (f a : UInt16) :
    (h.encode o f a).length = size := by
  simp [encode, Representation.bytes, size]

def representationOf (data : List UInt8) : Representation :=
  ⟨data.getD 4 0, data.getD 5 0, data.getD 6 0, data.getD 7 0⟩

/-- The fragment length that a header announces, in the given byte order. -/
def announced (o : ByteOrder) (data : List UInt8) : UInt16 := o.read16 ((data.drop 8).take 2)

/-- Reads a header and checks its lengths against the bytes at hand. -/
def parse (data : List UInt8) : Except Error Header := do
  if data.length < size then
    throw (.malformedPdu data.length (.headerShort data.length))
  let representation := representationOf data
  let o := (← Label.ofRepresentation representation).integers
  let fragmentLength := announced o data
  let authLength := o.read16 ((data.drop 10).take 2)
  let callId := o.read32 ((data.drop 12).take 4)
  match PacketKind.ofTag? (data.getD 2 0) with
  | none => throw (.unknownPacketKind (data.getD 2 0))
  | some kind =>
    if fragmentLength.toNat < size then
      throw (.malformedPdu 8 (.fragmentBelowHeader fragmentLength.toNat))
    if fragmentLength.toNat > data.length then
      throw (.malformedPdu 8 (.fragmentBeyondBuffer fragmentLength.toNat data.length))
    if size + authLength.toNat > fragmentLength.toNat then
      throw (.malformedPdu 10 (.authBeyondFragment authLength.toNat fragmentLength.toNat))
    return ⟨data.getD 0 0, data.getD 1 0, kind, ⟨data.getD 3 0⟩, representation,
      fragmentLength, authLength, callId⟩

/-- The fragment length that the bytes at hand announce. -/
def peekLength (data : List UInt8) : Except Error Nat := do
  if data.length < size then
    throw (.malformedPdu data.length .headerTruncated)
  let label ← Label.ofRepresentation (representationOf data)
  return (announced label.integers data).toNat

end Header

end RemoteCall
