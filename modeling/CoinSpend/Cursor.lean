import CoinSpend.Error

/-!
# Reading from a byte string

A cursor stands at a position in a byte string, and each read moves it forward.
A read that finds too few bytes does not move.  The cursor outlives a failure,
so reading can go on after one.
-/

namespace CoinSpend

/-- A position in a byte string and the bytes from there on. -/
structure Cursor where
  position : Nat
  unread : Bytes
  deriving DecidableEq

/-- A computation that reads from a cursor and may fail. -/
abbrev Reading := ExceptT Error (StateM Cursor)

namespace Cursor

/-- The cursor at the start of a byte string. -/
def start (bytes : Bytes) : Cursor := ⟨0, bytes⟩

end Cursor

namespace Reading

/-- The outcome of reading from a cursor, and where it then stands. -/
def runFrom {α : Type} (reading : Reading α) (cursor : Cursor) :
    Except Error α × Cursor :=
  (ExceptT.run reading).run cursor

/-- The outcome of reading from the start of a byte string. -/
def runOn {α : Type} (reading : Reading α) (bytes : Bytes) : Except Error α :=
  (reading.runFrom (Cursor.start bytes)).1

@[simp]
theorem runFrom_pure {α : Type} (value : α) (cursor : Cursor) :
    (pure value : Reading α).runFrom cursor = (.ok value, cursor) :=
  rfl

@[simp]
theorem runFrom_throw {α : Type} (error : Error) (cursor : Cursor) :
    (throw error : Reading α).runFrom cursor = (.error error, cursor) :=
  rfl

theorem runFrom_bind {α β : Type} (reading : Reading α)
    (next : α → Reading β) (cursor : Cursor) :
    (reading >>= next).runFrom cursor =
      match reading.runFrom cursor with
      | (.ok value, after) => (next value).runFrom after
      | (.error error, after) => (.error error, after) := by
  show (ExceptT.run (reading >>= next)).run cursor = _
  simp only [ExceptT.run_bind, StateT.run_bind, runFrom]
  cases (ExceptT.run reading).run cursor with
  | mk outcome after => cases outcome <;> rfl

@[simp]
theorem runFrom_get (cursor : Cursor) :
    (get : Reading Cursor).runFrom cursor = (.ok cursor, cursor) :=
  rfl

end Reading

/-- The next `size` bytes as a byte string of that length. -/
def readFixed (size : Nat) : Reading (FixedBytes size) := do
  let cursor ← get
  if enough : (cursor.unread.take size).length = size then
    set (Cursor.mk (cursor.position + size) (cursor.unread.drop size))
    return ⟨cursor.unread.take size, enough⟩
  else
    throw (.truncated size cursor.unread.length)

/-- The next `count` bytes. -/
def readBytes (count : Nat) : Reading Bytes := do
  return (← readFixed count).toBytes

theorem runFrom_readFixed (size : Nat) (cursor : Cursor) :
    (readFixed size).runFrom cursor =
      if enough : (cursor.unread.take size).length = size then
        (.ok ⟨cursor.unread.take size, enough⟩,
          ⟨cursor.position + size, cursor.unread.drop size⟩)
      else (.error (.truncated size cursor.unread.length), cursor) := by
  unfold readFixed
  rw [Reading.runFrom_bind, Reading.runFrom_get]
  simp only
  split <;> rfl

theorem runFrom_readBytes (count : Nat) (cursor : Cursor) :
    (readBytes count).runFrom cursor =
      if count ≤ cursor.unread.length then
        (.ok (cursor.unread.take count),
          ⟨cursor.position + count, cursor.unread.drop count⟩)
      else (.error (.truncated count cursor.unread.length), cursor) := by
  unfold readBytes
  rw [Reading.runFrom_bind, runFrom_readFixed]
  by_cases enough : count ≤ cursor.unread.length
  · simp [enough]
  · have short : ¬ min count cursor.unread.length = count := by omega
    simp [enough, short]

/-- The next `width` bytes as a little-endian number. -/
def readNumber (width : Nat) : Reading Nat := do
  return littleEndianValue (← readBytes width)

def readUInt8 : Reading UInt8 := do
  return UInt8.ofNat (← readNumber 1)

def readUInt16 : Reading UInt16 := do
  return UInt16.ofNat (← readNumber 2)

def readUInt32 : Reading UInt32 := do
  return UInt32.ofNat (← readNumber 4)

def readUInt64 : Reading UInt64 := do
  return UInt64.ofNat (← readNumber 8)

/-- The number in the first `width` bytes of a byte string, in the byte order of
the wire. -/
def unpackLittleEndian (width : Nat) (bytes : Bytes) : Except Error Nat :=
  (do return littleEndianValue (← readBytes width) : Reading Nat).runOn bytes

/-- The number in the first `width` bytes of a byte string, most significant
byte first. -/
def unpackBigEndian (width : Nat) (bytes : Bytes) : Except Error Nat :=
  (do return bigEndianValue (← readBytes width) : Reading Nat).runOn bytes

end CoinSpend
