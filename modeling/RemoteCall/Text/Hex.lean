/-! Hexadecimal digits, and numbers written with a fixed number of them. -/

namespace RemoteCall

def hexDigit (n : Nat) : Char := "0123456789abcdef".toList.getD n '?'

/-- The `width` lowest hexadecimal digits of `n`, highest first. -/
def hexDigits : (width : Nat) → (n : Nat) → List Char
  | 0, _ => []
  | width + 1, n => hexDigits width (n / 16) ++ [hexDigit (n % 16)]

def hex8 (n : UInt32) : String := String.ofList (hexDigits 8 n.toNat)

def hexByte (b : UInt8) : String := String.ofList (hexDigits 2 b.toNat)

def hexValue? (c : Char) : Option Nat :=
  if '0' ≤ c ∧ c ≤ '9' then some (c.toNat - '0'.toNat)
  else if 'a' ≤ c ∧ c ≤ 'f' then some (c.toNat - 'a'.toNat + 10)
  else if 'A' ≤ c ∧ c ≤ 'F' then some (c.toNat - 'A'.toNat + 10)
  else none

/-- The number that a run of hexadecimal digits writes. -/
def hexNumber? (cs : List Char) : Option Nat :=
  cs.foldlM (fun acc c => (hexValue? c).map (16 * acc + ·)) 0

/-- Two digits for each byte. -/
def hexText (bs : List UInt8) : String :=
  bs.foldl (fun s b => (s.push (hexDigit (b.toNat / 16))).push (hexDigit (b.toNat % 16))) ""

/-- The bytes of pairs of digits, in reverse, after those already read. -/
def hexPairs? (read : List UInt8) : List Char → Option (List UInt8)
  | [] => some read
  | [_] => none
  | a :: b :: rest => do
    let n ← hexNumber? [a, b]
    hexPairs? (UInt8.ofNat n :: read) rest

/-- Reads what `hexText` writes. -/
def hexBytes? (s : String) : Option (List UInt8) := (hexPairs? [] s.toList).map List.reverse

end RemoteCall
