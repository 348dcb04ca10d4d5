import CoinSpend.Cursor

/-!
# Compact sizes

A count takes one, three, five or nine bytes.  A first byte below `fd` is the
count itself, and the bytes `fd`, `fe` and `ff` announce a little-endian field of
two, four or eight bytes.  Only the shortest form is read.
-/

namespace CoinSpend

namespace CompactSize

/-- The number of bytes that a count takes. -/
def size (count : Nat) : Nat :=
  if count < 0xfd then 1
  else if count ≤ 0xffff then 3
  else if count ≤ 0xffffffff then 5
  else 9

/-- A count in its shortest form. -/
def encode (count : Nat) : Bytes :=
  if count < 0xfd then [UInt8.ofNat count]
  else if count ≤ 0xffff then 0xfd :: littleEndian 2 count
  else if count ≤ 0xffffffff then 0xfe :: littleEndian 4 count
  else 0xff :: littleEndian 8 count

@[simp]
theorem encode_length (count : Nat) : (encode count).length = size count := by
  unfold encode size
  repeat' split
  all_goals simp

/-- A count of at least `least` in a field of `width` bytes. -/
def readField (width least : Nat) : Reading Nat := do
  let count ← readNumber width
  if count < least then throw (.nonMinimalCompactSize count)
  return count

/-- Read a count. -/
def read : Reading Nat := do
  let first ← readUInt8
  if first = 0xff then readField 8 0x100000000
  else if first = 0xfe then readField 4 0x10000
  else if first = 0xfd then readField 2 0xfd
  else return first.toNat

/-- The count at the start of a byte string, and the number of bytes it
takes. -/
def decode (bytes : Bytes) : Except Error (Nat × Nat) :=
  let (outcome, cursor) := read.runFrom (Cursor.start bytes)
  outcome.map fun count => (count, cursor.position)

end CompactSize

/-- Bytes after the count of them. -/
def lengthPrefixed (bytes : Bytes) : Bytes :=
  CompactSize.encode bytes.length ++ bytes

/-- Read bytes after the count of them. -/
def readLengthPrefixed : Reading Bytes := do
  readBytes (← CompactSize.read)

end CoinSpend
