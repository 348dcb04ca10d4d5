import CoinSpend.Text

/-!
# Base 58 text

A byte string read as a number in base 256 is written in base 58, with one `1`
for each leading zero byte.  The alphabet leaves out characters that look alike.
-/

namespace CoinSpend

namespace Base58

/-- Why a text is not base 58, or not the base 58 form of a guarded payload. -/
inductive Fault
  | nonAscii (offset : Nat)
  | foreignByte (byte : UInt8) (offset : Nat)
  | missingChecksum
  | missingVersion
  deriving DecidableEq

def Fault.message : Fault → String
  | .nonAscii offset =>
      "provided string contained non-ascii character starting at byte " ++
        toString offset
  | .foreignByte byte offset =>
      "provided string contained invalid character " ++
        quotedCharacter (Char.ofNat byte.toNat) ++ " at byte " ++
        toString offset
  | .missingChecksum => "provided string is too small to contain a checksum"
  | .missingVersion => "missing version byte"

/-- The digits in the order of their values. -/
def alphabet : Bytes :=
  ['1', '2', '3', '4', '5', '6', '7', '8', '9',
    'A', 'B', 'C', 'D', 'E', 'F', 'G', 'H', 'J', 'K', 'L', 'M', 'N', 'P',
    'Q', 'R', 'S', 'T', 'U', 'V', 'W', 'X', 'Y', 'Z',
    'a', 'b', 'c', 'd', 'e', 'f', 'g', 'h', 'i', 'j', 'k', 'm', 'n', 'o',
    'p', 'q', 'r', 's', 't', 'u', 'v', 'w', 'x', 'y', 'z'].map fun character =>
      UInt8.ofNat character.toNat

/-- The digit of a number below 58. -/
def digit (number : Nat) : UInt8 :=
  alphabet.getD number 0

/-- A byte string in base 58. -/
def encode (bytes : Bytes) : String :=
  asciiText ((Radix.convert 256 58 (bytes.map UInt8.toNat)).map digit)

/-- The values of the digits of a text whose first byte is at `offset`. -/
def digitValues (offset : Nat) : Bytes → Except Fault (List Nat)
  | [] => .ok []
  | byte :: bytes =>
      if 128 ≤ byte then .error (.nonAscii offset)
      else
        match alphabet.idxOf? byte with
        | none => .error (.foreignByte byte offset)
        | some value => do
            let values ← digitValues (offset + 1) bytes
            return value :: values

/-- The byte string that a base 58 text stands for. -/
def decode (text : String) : Except Fault Bytes := do
  let values ← digitValues 0 (utf8Bytes text)
  return (Radix.convert 58 256 values).map UInt8.ofNat

end Base58

end CoinSpend
