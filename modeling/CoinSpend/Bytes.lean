/-!
# Byte strings and positional notation

A byte string is a list of bytes.  A number is written into a field of a fixed
width in one of two byte orders, and each order is the reverse of the other.
Reading a field gives back what was written, up to the width of the field.

Without a fixed width, a list of digits, most significant first, denotes a
number.  Conversion between two bases keeps the number of leading zeros, so that
no digit list is confused with another of the same value.
-/

namespace CoinSpend

/-- A sequence of bytes of any length. -/
abbrev Bytes := List UInt8

/-- A byte string of exactly `size` bytes. -/
structure FixedBytes (size : Nat) where
  toBytes : Bytes
  length_toBytes : toBytes.length = size
deriving DecidableEq

namespace FixedBytes

/-- The byte string as one of the required length, if it has that length. -/
def ofBytes? (size : Nat) (bytes : Bytes) : Option (FixedBytes size) :=
  if length_eq : bytes.length = size then some ⟨bytes, length_eq⟩ else none

/-- The same bytes in the opposite order. -/
def reverse {size : Nat} (bytes : FixedBytes size) : FixedBytes size :=
  ⟨bytes.toBytes.reverse, by simp [bytes.length_toBytes]⟩

@[simp]
theorem toBytes_reverse {size : Nat} (bytes : FixedBytes size) :
    bytes.reverse.toBytes = bytes.toBytes.reverse :=
  rfl

@[ext]
theorem ext {size : Nat} {first second : FixedBytes size}
    (toBytes_eq : first.toBytes = second.toBytes) : first = second := by
  cases first
  cases second
  simp_all

theorem ofBytes?_eq_some_iff {size : Nat} {bytes : Bytes}
    {fixed : FixedBytes size} :
    ofBytes? size bytes = some fixed ↔ bytes = fixed.toBytes := by
  unfold ofBytes?
  constructor
  · intro found
    split at found
    · cases found
      rfl
    · contradiction
  · intro same
    subst same
    simp [fixed.length_toBytes]

end FixedBytes

/-- The low `width` bytes of a number, least significant byte first. -/
def littleEndian : (width number : Nat) → Bytes
  | 0, _ => []
  | width + 1, number =>
      UInt8.ofNat number :: littleEndian width (number / 256)

/-- The number that a byte string denotes, least significant byte first. -/
def littleEndianValue : Bytes → Nat
  | [] => 0
  | byte :: bytes => byte.toNat + 256 * littleEndianValue bytes

/-- The low `width` bytes of a number, most significant byte first. -/
def bigEndian (width number : Nat) : Bytes :=
  (littleEndian width number).reverse

/-- The number that a byte string denotes, most significant byte first. -/
def bigEndianValue (bytes : Bytes) : Nat :=
  littleEndianValue bytes.reverse

@[simp]
theorem littleEndian_length (width number : Nat) :
    (littleEndian width number).length = width := by
  induction width generalizing number with
  | zero => rfl
  | succ width ih => simp [littleEndian, ih]

@[simp]
theorem bigEndian_length (width number : Nat) :
    (bigEndian width number).length = width := by
  simp [bigEndian]

/-- Every byte string is the field that holds its own value. -/
theorem littleEndian_littleEndianValue (bytes : Bytes) :
    littleEndian bytes.length (littleEndianValue bytes) = bytes := by
  induction bytes with
  | nil => rfl
  | cons byte bytes ih =>
      have byteBound := byte.toNat_lt
      have quotient :
          (byte.toNat + 256 * littleEndianValue bytes) / 256 =
            littleEndianValue bytes := by omega
      simp only [List.length_cons, littleEndian, littleEndianValue, quotient, ih]
      congr 1
      apply UInt8.toNat_inj.mp
      simp only [UInt8.toNat_ofNat']
      omega

theorem bigEndian_bigEndianValue (bytes : Bytes) :
    bigEndian bytes.length (bigEndianValue bytes) = bytes := by
  have reversed := littleEndian_littleEndianValue bytes.reverse
  simp only [List.length_reverse] at reversed
  simp [bigEndian, bigEndianValue, reversed]

/-- A number as a big-endian field of `width` bytes. -/
def FixedBytes.ofNat (width number : Nat) : FixedBytes width :=
  ⟨bigEndian width number, bigEndian_length width number⟩

namespace Radix

/-- The number that a list of digits denotes. -/
def value (base : Nat) (digits : List Nat) : Nat :=
  digits.foldl (fun number digit => number * base + digit) 0

/-- The digits of a number, least significant first and without leading zeros.
The number itself bounds how many there are. -/
def lowDigits (base : Nat) : (bound number : Nat) → List Nat
  | 0, _ => []
  | bound + 1, number =>
      if number = 0 then []
      else number % base :: lowDigits base bound (number / base)

/-- The digits of a number, most significant first and without leading
zeros. -/
def digits (base number : Nat) : List Nat :=
  (lowDigits base number number).reverse

/-- The digits in another base, after as many zeros as there were before. -/
def convert (source target : Nat) (input : List Nat) : List Nat :=
  input.takeWhile (· == 0) ++ digits target (value source input)

end Radix

end CoinSpend
