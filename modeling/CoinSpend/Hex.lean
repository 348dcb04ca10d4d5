import CoinSpend.Text

/-!
# Hexadecimal text

Two digits for a byte.  Digits are written in lower case and read in either.
-/

namespace CoinSpend

namespace Hex

/-- Why a text is not hexadecimal. -/
inductive Fault
  | oddLength
  | foreignByte (byte : UInt8) (offset : Nat)
  deriving DecidableEq

def Fault.message : Fault → String
  | .oddLength => "Odd number of digits"
  | .foreignByte byte offset =>
      "Invalid character " ++ quotedCharacter (Char.ofNat byte.toNat) ++
        " at position " ++ toString offset

/-- The digit of a number below sixteen. -/
def digit (number : Nat) : UInt8 :=
  if number < 10 then UInt8.ofNat (48 + number) else UInt8.ofNat (87 + number)

/-- The number that a digit of either case stands for. -/
def digitValue? (byte : UInt8) : Option Nat :=
  if 48 ≤ byte ∧ byte ≤ 57 then some (byte.toNat - 48)
  else if 97 ≤ byte ∧ byte ≤ 102 then some (byte.toNat - 87)
  else if 65 ≤ byte ∧ byte ≤ 70 then some (byte.toNat - 55)
  else none

/-- The digits of a byte string, high half of each byte first. -/
def encodeBytes : Bytes → Bytes
  | [] => []
  | byte :: bytes =>
      digit (byte.toNat / 16) :: digit (byte.toNat % 16) :: encodeBytes bytes

/-- A byte string in lower-case hexadecimal. -/
def encode (bytes : Bytes) : String :=
  asciiText (encodeBytes bytes)

def digitAt (byte : UInt8) (offset : Nat) : Except Fault Nat :=
  match digitValue? byte with
  | some number => .ok number
  | none => .error (.foreignByte byte offset)

def decodeFrom (offset : Nat) : Bytes → Except Fault Bytes
  | [] => .ok []
  | [_] => .error .oddLength
  | high :: low :: rest => do
      let upper ← digitAt high offset
      let lower ← digitAt low (offset + 1)
      let bytes ← decodeFrom (offset + 2) rest
      return UInt8.ofNat (16 * upper + lower) :: bytes

/-- The byte string that a hexadecimal text stands for.  An odd length is
reported before any foreign byte. -/
def decode (text : String) : Except Fault Bytes :=
  let bytes := utf8Bytes text
  if bytes.length % 2 = 1 then .error .oddLength else decodeFrom 0 bytes

end Hex

end CoinSpend
