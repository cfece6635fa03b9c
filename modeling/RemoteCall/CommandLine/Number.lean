/-! Decimal numbers in arguments. -/

namespace RemoteCall.CommandLine

def digit? (c : Char) : Option Nat :=
  if '0' ≤ c ∧ c ≤ '9' then some (c.toNat - '0'.toNat) else none

/-- The number that a run of digits writes. There has to be at least one. -/
def decimal? : List Char → Option Nat
  | [] => none
  | cs => cs.foldlM (fun n c => (digit? c).map (10 * n + ·)) 0

/-- A number up to a greatest one. A plus sign may stand before it. -/
def natural? (greatest : Nat) (cs : List Char) : Option Nat := do
  let n ← decimal? (if cs.head? == some '+' then cs.drop 1 else cs)
  if n ≤ greatest then some n else none

/-- Like `natural?`, and zero may carry a minus sign. -/
def signed? (greatest : Nat) (cs : List Char) : Option Nat :=
  if cs.head? == some '-' then do
    let n ← decimal? (cs.drop 1)
    if n = 0 then some 0 else none
  else natural? greatest cs

def word16? (s : String) : Option UInt16 := (signed? 0xffff s.toList).map UInt16.ofNat

def word32? (s : String) : Option UInt32 := (signed? 0xffffffff s.toList).map UInt32.ofNat

def word64? (s : String) : Option Nat := natural? 0xffffffffffffffff s.toList

end RemoteCall.CommandLine
