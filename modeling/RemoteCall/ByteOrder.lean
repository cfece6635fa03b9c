/-! Numbers as digits of base 256. `encode` writes the given number of bytes in either order,
`decode` reads any run of bytes; each undoes the other. -/

namespace RemoteCall

/-- Which end of a number comes first. -/
inductive ByteOrder
  | little
  | big
  deriving DecidableEq, Repr

/-- How many numbers can be written with so many digits. -/
def capacity : (width : Nat) → Nat
  | 0 => 1
  | width + 1 => 256 * capacity width

/-- The `width` lowest digits of `n`, lowest first. -/
def digits : (width : Nat) → (n : Nat) → List UInt8
  | 0, _ => []
  | width + 1, n => UInt8.ofNat n :: digits width (n / 256)

/-- The number with the given digits, lowest first. -/
def ofDigits : List UInt8 → Nat
  | [] => 0
  | b :: bs => b.toNat + 256 * ofDigits bs

@[simp] theorem length_digits (width n : Nat) : (digits width n).length = width := by
  induction width generalizing n with
  | zero => rfl
  | succ width ih => simp [digits, ih]

theorem ofDigits_digits (width n : Nat) : ofDigits (digits width n) = n % capacity width := by
  induction width generalizing n with
  | zero => simp [digits, ofDigits, capacity, Nat.mod_one]
  | succ width ih =>
    have byte : (UInt8.ofNat n).toNat = n % 256 := by simp
    rw [digits, ofDigits, ih, byte, capacity, Nat.mod_mul]

theorem ofDigits_lt (bs : List UInt8) : ofDigits bs < capacity bs.length := by
  induction bs with
  | nil => simp [ofDigits, capacity]
  | cons b bs ih =>
    have := b.toNat_lt
    simp only [ofDigits, List.length_cons, capacity]
    omega

theorem digits_ofDigits (bs : List UInt8) : digits bs.length (ofDigits bs) = bs := by
  induction bs with
  | nil => rfl
  | cons b bs ih =>
    have hb := b.toNat_lt
    have hdiv : (b.toNat + 256 * ofDigits bs) / 256 = ofDigits bs := by omega
    simp only [List.length_cons, ofDigits, digits, hdiv, ih, List.cons.injEq, and_true]
    apply UInt8.toNat_inj.1
    simp only [UInt8.toNat_ofNat']
    omega

namespace ByteOrder

/-- Reorders a run of digits that stands lowest first, and back. -/
def arrange : ByteOrder → List UInt8 → List UInt8
  | .little, bs => bs
  | .big, bs => bs.reverse

@[simp] theorem arrange_arrange (o : ByteOrder) (bs : List UInt8) : o.arrange (o.arrange bs) = bs := by
  cases o <;> simp [arrange]

@[simp] theorem length_arrange (o : ByteOrder) (bs : List UInt8) :
    (o.arrange bs).length = bs.length := by
  cases o <;> simp [arrange]

def encode (o : ByteOrder) (width n : Nat) : List UInt8 := o.arrange (digits width n)

def decode (o : ByteOrder) (bs : List UInt8) : Nat := ofDigits (o.arrange bs)

@[simp] theorem length_encode (o : ByteOrder) (width n : Nat) : (o.encode width n).length = width := by
  simp [encode]

theorem decode_encode (o : ByteOrder) {width n : Nat} (h : n < capacity width) :
    o.decode (o.encode width n) = n := by
  simp [decode, encode, ofDigits_digits, Nat.mod_eq_of_lt h]

theorem decode_lt (o : ByteOrder) (bs : List UInt8) : o.decode bs < capacity bs.length := by
  simpa [decode] using ofDigits_lt (o.arrange bs)

theorem encode_decode (o : ByteOrder) (bs : List UInt8) : o.encode bs.length (o.decode bs) = bs := by
  have := digits_ofDigits (o.arrange bs)
  simp only [length_arrange] at this
  simp [decode, encode, this]

def word16 (o : ByteOrder) (n : UInt16) : List UInt8 := o.encode 2 n.toNat
def word32 (o : ByteOrder) (n : UInt32) : List UInt8 := o.encode 4 n.toNat
def word64 (o : ByteOrder) (n : UInt64) : List UInt8 := o.encode 8 n.toNat

def read16 (o : ByteOrder) (bs : List UInt8) : UInt16 := UInt16.ofNat (o.decode bs)
def read32 (o : ByteOrder) (bs : List UInt8) : UInt32 := UInt32.ofNat (o.decode bs)
def read64 (o : ByteOrder) (bs : List UInt8) : UInt64 := UInt64.ofNat (o.decode bs)

@[simp] theorem length_word16 (o : ByteOrder) (n : UInt16) : (o.word16 n).length = 2 := by simp [word16]
@[simp] theorem length_word32 (o : ByteOrder) (n : UInt32) : (o.word32 n).length = 4 := by simp [word32]
@[simp] theorem length_word64 (o : ByteOrder) (n : UInt64) : (o.word64 n).length = 8 := by simp [word64]

@[simp] theorem read16_word16 (o : ByteOrder) (n : UInt16) : o.read16 (o.word16 n) = n := by
  simp [read16, word16, @decode_encode o 2 n.toNat n.toNat_lt]

@[simp] theorem read32_word32 (o : ByteOrder) (n : UInt32) : o.read32 (o.word32 n) = n := by
  simp [read32, word32, @decode_encode o 4 n.toNat n.toNat_lt]

@[simp] theorem read64_word64 (o : ByteOrder) (n : UInt64) : o.read64 (o.word64 n) = n := by
  simp [read64, word64, @decode_encode o 8 n.toNat n.toNat_lt]

section Words

variable (o : ByteOrder) {bs : List UInt8}

theorem word16_read16 (h : bs.length = 2) : o.word16 (o.read16 bs) = bs := by
  have hlt : o.decode bs < capacity 2 := h ▸ o.decode_lt bs
  have hword : (o.read16 bs).toNat = o.decode bs := UInt16.toNat_ofNat_of_lt' hlt
  have hbytes := o.encode_decode bs
  rw [h] at hbytes
  rw [word16, hword, hbytes]

theorem word32_read32 (h : bs.length = 4) : o.word32 (o.read32 bs) = bs := by
  have hlt : o.decode bs < capacity 4 := h ▸ o.decode_lt bs
  have hword : (o.read32 bs).toNat = o.decode bs := UInt32.toNat_ofNat_of_lt' hlt
  have hbytes := o.encode_decode bs
  rw [h] at hbytes
  rw [word32, hword, hbytes]

theorem word64_read64 (h : bs.length = 8) : o.word64 (o.read64 bs) = bs := by
  have hlt : o.decode bs < capacity 8 := h ▸ o.decode_lt bs
  have hword : (o.read64 bs).toNat = o.decode bs := UInt64.toNat_ofNat_of_lt' hlt
  have hbytes := o.encode_decode bs
  rw [h] at hbytes
  rw [word64, hword, hbytes]

end Words

end ByteOrder

/-- The first `n` elements and what follows them, if there are that many. -/
def splitExact? {α : Type} : Nat → List α → Option (List α × List α)
  | 0, xs => some ([], xs)
  | _ + 1, [] => none
  | n + 1, x :: xs => (splitExact? n xs).map fun (taken, rest) => (x :: taken, rest)

theorem splitExact?_eq {α : Type} (n : Nat) (xs : List α) :
    splitExact? n xs = if n ≤ xs.length then some (xs.take n, xs.drop n) else none := by
  induction n generalizing xs with
  | zero => simp [splitExact?]
  | succ n ih =>
    cases xs with
    | nil => simp [splitExact?]
    | cons x xs => by_cases h : n ≤ xs.length <;> simp [splitExact?, ih, h]

theorem splitExact?_append {α : Type} {n : Nat} {xs : List α} (h : xs.length = n) (ys : List α) :
    splitExact? n (xs ++ ys) = some (xs, ys) := by
  subst h
  simp [splitExact?_eq]

end RemoteCall
