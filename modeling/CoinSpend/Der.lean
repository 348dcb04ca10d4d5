import CoinSpend.Secp256k1

/-!
# The DER form of a pair of numbers

A sequence of two integers in the distinguished encoding: a tag, a length in its
shortest form, and the content.  The content of an integer is its shortest
big-endian two's-complement form.
-/

namespace CoinSpend

namespace Der

/-- The content of a non-negative integer.  A zero byte keeps a high first bit
from being read as a sign. -/
def integerContent (number : Nat) : Bytes :=
  match (Radix.digits 256 number).map UInt8.ofNat with
  | [] => [0]
  | first :: rest =>
      if 128 ≤ first then 0 :: first :: rest else first :: rest

/-- An integer whose content is shorter than 128 bytes. -/
def encodeInteger (number : Nat) : Bytes :=
  let content := integerContent number
  0x02 :: UInt8.ofNat content.length :: content

/-- A sequence of two integers whose content is shorter than 128 bytes. -/
def encodePair (first second : Nat) : Bytes :=
  let content := encodeInteger first ++ encodeInteger second
  0x30 :: UInt8.ofNat content.length :: content

/-- A length and the bytes after it.  Lengths below 128 are one byte.  Larger
ones are a count of length bytes followed by these, without a leading zero. -/
def readLength? : Bytes → Option (Nat × Bytes)
  | [] => none
  | first :: rest =>
      if first < 0x80 then some (first.toNat, rest)
      else if first = 0x80 ∨ first = 0xff then none
      else
        let width := first.toNat - 128
        let field := rest.take width
        if field.length < width ∨ field.head? = some 0 then none
        else
          let length := bigEndianValue field
          if length < 128 then none else some (length, rest.drop width)

/-- Whether an integer's content has no superfluous first byte. -/
def minimalContent : Bytes → Bool
  | [] => false
  | [_] => true
  | first :: second :: _ =>
      !((first == 0x00 && second < 0x80) || (first == 0xff && 0x80 ≤ second))

/-- The content of an integer and the bytes after it. -/
def readInteger? : Bytes → Option (Bytes × Bytes)
  | 0x02 :: rest => do
      let (length, after) ← readLength? rest
      let content := after.take length
      guard (content.length = length ∧ minimalContent content)
      return (content, after.drop length)
  | _ => none

/-- The number in an integer's content, zero standing for every number that is
negative or not below the group order. -/
def scalarNumber (content : Bytes) : Nat :=
  let number := bigEndianValue content
  if 0x80 ≤ content.headD 0 ∨ Secp256k1.groupOrder ≤ number then 0 else number

/-- The two numbers of a sequence that the whole byte string consists of. -/
def decodePair? : Bytes → Option (Nat × Nat)
  | 0x30 :: rest => do
      let (length, body) ← readLength? rest
      guard (body.length = length)
      let (first, afterFirst) ← readInteger? body
      let (second, afterSecond) ← readInteger? afterFirst
      guard (afterSecond = [])
      return (scalarNumber first, scalarNumber second)
  | _ => none

end Der

end CoinSpend
