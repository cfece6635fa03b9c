/-! UTF-16: a character below U+10000 is one unit, any other a high surrogate followed by a low
one. Reading fails on a surrogate that stands alone. -/

namespace RemoteCall.Utf16

def isHigh (u : UInt16) : Bool := 0xD800 ≤ u && u < 0xDC00

def isLow (u : UInt16) : Bool := 0xDC00 ≤ u && u < 0xE000

def ofChar (c : Char) : List UInt16 :=
  if c.toNat < 0x10000 then [UInt16.ofNat c.toNat]
  else
    let n := c.toNat - 0x10000
    [UInt16.ofNat (0xD800 + n / 0x400), UInt16.ofNat (0xDC00 + n % 0x400)]

def encode (cs : List Char) : List UInt16 := cs.flatMap ofChar

/-- The character of a pair of surrogates. -/
def ofPair (high low : UInt16) : Char :=
  Char.ofNat (0x10000 + 0x400 * (high.toNat - 0xD800) + (low.toNat - 0xDC00))

def decode : List UInt16 → Option (List Char)
  | [] => some []
  | [u] => if isHigh u || isLow u then none else some [Char.ofNat u.toNat]
  | u :: v :: rest =>
    if isHigh u then
      if isLow v then (decode rest).map (ofPair u v :: ·) else none
    else if isLow u then none
    else (decode (v :: rest)).map (Char.ofNat u.toNat :: ·)

end RemoteCall.Utf16
