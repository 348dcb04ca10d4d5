import CoinSpend.Text

/-!
# Base 64 text

Three bytes are written as four symbols of six bits.  A last group of one or two
bytes is padded with `=` to four characters.  Only the text that writing
produces is read: the padding is required and the bits it leaves over are zero.
-/

namespace CoinSpend

namespace Base64

/-- Why a text is not base 64. -/
inductive Fault
  | foreignByte (byte : UInt8) (offset : Nat)
  | loneSymbol (length : Nat)
  | padding
  | leftoverBits (byte : UInt8) (offset : Nat)
  deriving DecidableEq

def Fault.message : Fault → String
  | .foreignByte byte offset =>
      "Invalid symbol " ++ toString byte.toNat ++ ", offset " ++
        toString offset ++ "."
  | .loneSymbol length => "Invalid input length: " ++ toString length
  | .padding => "Invalid padding"
  | .leftoverBits byte offset =>
      "Invalid last symbol " ++ toString byte.toNat ++ ", offset " ++
        toString offset ++ "."

/-- The symbols in the order of their values. -/
def alphabet : Bytes :=
  ['A', 'B', 'C', 'D', 'E', 'F', 'G', 'H', 'I', 'J', 'K', 'L', 'M', 'N', 'O',
    'P', 'Q', 'R', 'S', 'T', 'U', 'V', 'W', 'X', 'Y', 'Z',
    'a', 'b', 'c', 'd', 'e', 'f', 'g', 'h', 'i', 'j', 'k', 'l', 'm', 'n', 'o',
    'p', 'q', 'r', 's', 't', 'u', 'v', 'w', 'x', 'y', 'z',
    '0', '1', '2', '3', '4', '5', '6', '7', '8', '9',
    '+', '/'].map fun character => UInt8.ofNat character.toNat

/-- The padding character. -/
def pad : UInt8 := 61

/-- The symbol of a number below 64. -/
def symbol (number : Nat) : UInt8 :=
  alphabet.getD number 0

/-- The four symbols of a 24-bit number. -/
def symbols (number : Nat) : Bytes :=
  [symbol (number / 64 / 64 / 64 % 64), symbol (number / 64 / 64 % 64),
    symbol (number / 64 % 64), symbol (number % 64)]

/-- The characters of a byte string. -/
def encodeBytes : Bytes → Bytes
  | [] => []
  | [first] => (symbols (bigEndianValue [first, 0, 0])).take 2 ++ [pad, pad]
  | [first, second] =>
      (symbols (bigEndianValue [first, second, 0])).take 3 ++ [pad]
  | first :: second :: third :: rest =>
      symbols (bigEndianValue [first, second, third]) ++ encodeBytes rest

/-- A byte string in base 64. -/
def encode (bytes : Bytes) : String :=
  asciiText (encodeBytes bytes)

/-- The values of consecutive symbols, the first of which is at `offset`. -/
def symbolValues (offset : Nat) : Bytes → Except Fault (List Nat)
  | [] => .ok []
  | byte :: bytes =>
      match alphabet.idxOf? byte with
      | none => .error (.foreignByte byte offset)
      | some value => do
          let values ← symbolValues (offset + 1) bytes
          return value :: values

/-- The 24-bit number of at most four symbol values, the missing ones zero. -/
def groupNumber (values : List Nat) : Nat :=
  ((values.getD 0 0 * 64 + values.getD 1 0) * 64 + values.getD 2 0) * 64 +
    values.getD 3 0

/-- The bytes of the last group, which alone may be padded. -/
def decodeLast (offset : Nat) (group : Bytes) : Except Fault Bytes := do
  let written := group.takeWhile (· != pad)
  let padding := group.dropWhile (· != pad)
  let values ← symbolValues offset written
  if padding ≠ [] ∧ (written.length < 2 ∨ ¬ padding.all (· == pad)) then
    throw (.foreignByte pad (offset + written.length))
  if group ≠ [] ∧ written.length < 2 then
    throw (.loneSymbol (offset + written.length))
  if group.length % 4 ≠ 0 then
    throw .padding
  let bytes := bigEndian 3 (groupNumber values)
  if ¬ (bytes.drop (written.length - 1)).all (· == 0) then
    throw (.leftoverBits (written.getLastD 0) (offset + written.length - 1))
  return bytes.take (written.length - 1)

/-- The bytes of all groups, the first of which is at `offset`. -/
def decodeGroups (offset : Nat) : Bytes → Except Fault Bytes
  | first :: second :: third :: fourth :: next :: rest => do
      let values ← symbolValues offset [first, second, third, fourth]
      let bytes ← decodeGroups (offset + 4) (next :: rest)
      return bigEndian 3 (groupNumber values) ++ bytes
  | last => decodeLast offset last

/-- The byte string that a base 64 text stands for.  A single character after
the last full group is examined first. -/
def decode (text : String) : Except Fault Bytes := do
  let bytes := utf8Bytes text
  let last := bytes.getLastD pad
  if bytes.length % 4 = 1 ∧ last ≠ pad ∧ ¬ alphabet.contains last then
    throw (.foreignByte last (bytes.length - 1))
  decodeGroups 0 bytes

end Base64

end CoinSpend
