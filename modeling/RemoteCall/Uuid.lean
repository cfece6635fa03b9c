import RemoteCall.ByteOrder
import RemoteCall.Text.Hex
/-! Universally unique identifiers. Their first three fields follow the byte order of the unit that
carries them, the last eight bytes never do. -/

namespace RemoteCall

structure Uuid where
  timeLow : UInt32
  timeMid : UInt16
  timeHigh : UInt16
  node : UInt64
  deriving DecidableEq, Repr

namespace Uuid

def nil : Uuid := ⟨0, 0, 0, 0⟩

def encode (o : ByteOrder) (u : Uuid) : List UInt8 :=
  o.word32 u.timeLow ++ o.word16 u.timeMid ++ o.word16 u.timeHigh ++ ByteOrder.big.word64 u.node

/-- Reads the sixteen bytes that `encode` writes. -/
def decode (o : ByteOrder) (bs : List UInt8) : Uuid where
  timeLow := o.read32 (bs.take 4)
  timeMid := o.read16 ((bs.drop 4).take 2)
  timeHigh := o.read16 ((bs.drop 6).take 2)
  node := ByteOrder.big.read64 ((bs.drop 8).take 8)

@[simp] theorem length_encode (o : ByteOrder) (u : Uuid) : (u.encode o).length = 16 := by
  simp [encode]

@[simp] theorem decode_encode (o : ByteOrder) (u : Uuid) : decode o (u.encode o) = u := by
  simp [decode, encode, List.drop_append, List.drop_eq_nil_of_le,
    List.take_of_length_le]

/-- The hyphenated lower case form. -/
def text (u : Uuid) : String :=
  let cs := hexDigits 16 u.node.toNat
  String.ofList (hexDigits 8 u.timeLow.toNat ++ '-' :: hexDigits 4 u.timeMid.toNat ++ '-' ::
    hexDigits 4 u.timeHigh.toNat ++ '-' :: cs.take 4 ++ '-' :: cs.drop 4)

/-- Reads the hyphenated form, in either case. -/
def ofText? (s : String) : Option Uuid := do
  let cs := s.toList.filter (· != '-')
  if cs.length != 32 then none
  let low ← hexNumber? (cs.take 8)
  let mid ← hexNumber? ((cs.drop 8).take 4)
  let high ← hexNumber? ((cs.drop 12).take 4)
  let node ← hexNumber? (cs.drop 16)
  some ⟨UInt32.ofNat low, UInt16.ofNat mid, UInt16.ofNat high, UInt64.ofNat node⟩

end Uuid

end RemoteCall
