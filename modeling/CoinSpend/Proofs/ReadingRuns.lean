import CoinSpend.Proofs.CompactForm

/-!
# Reading on and on, past failures too

A cursor can be read from in any order, and a read that fails leaves it somewhere.
Every read is described here by where it leaves the cursor: a success passes over the
bytes that stand for the value, and a failure stays or passes over what it found out
about.  So in a whole run the cursor never goes back and never leaves the byte string.
-/

namespace CoinSpend

/-- What can be read from a cursor. -/
inductive ReadKind
  | uint8
  | uint16
  | uint32
  | uint64
  | array (size : Nat)
  | bytes (count : Nat)
  | compactSize
  | lengthPrefixed

namespace ReadKind

/-- The values that are read. -/
def Value : ReadKind → Type
  | uint8 => UInt8
  | uint16 => UInt16
  | uint32 => UInt32
  | uint64 => UInt64
  | array size => FixedBytes size
  | bytes _ => Bytes
  | compactSize => Nat
  | lengthPrefixed => Bytes

def read : (kind : ReadKind) → Reading kind.Value
  | uint8 => readUInt8
  | uint16 => readUInt16
  | uint32 => readUInt32
  | uint64 => readUInt64
  | array size => readFixed size
  | bytes count => readBytes count
  | compactSize => CompactSize.read
  | lengthPrefixed => readLengthPrefixed

/-- The bytes that stand for a value. -/
def toBytes : (kind : ReadKind) → kind.Value → Bytes
  | uint8 => fun (byte : UInt8) => [byte]
  | uint16 => fun (word : UInt16) => littleEndian 2 word.toNat
  | uint32 => fun (word : UInt32) => littleEndian 4 word.toNat
  | uint64 => fun (word : UInt64) => littleEndian 8 word.toNat
  | array _ => FixedBytes.toBytes
  | bytes _ => id
  | compactSize => CompactSize.encode
  | lengthPrefixed => CoinSpend.lengthPrefixed

/-- The values that a read can give. -/
def Valid : (kind : ReadKind) → kind.Value → Prop
  | bytes count => fun (data : Bytes) => data.length = count
  | compactSize => fun (count : Nat) => count < 2 ^ 64
  | lengthPrefixed => fun (data : Bytes) => data.length < 2 ^ 64
  | _ => fun _ => True

/-- The number of bytes that are read, if it is known beforehand. -/
def width? : ReadKind → Option Nat
  | uint8 => some 1
  | uint16 => some 2
  | uint32 => some 4
  | uint64 => some 8
  | array size => some size
  | bytes count => some count
  | compactSize => none
  | lengthPrefixed => none

theorem read_exact (kind : ReadKind) :
    kind.read.Exact kind.toBytes kind.Valid := by
  cases kind with
  | uint8 => exact readUInt8_exact
  | uint16 => exact readUInt16_exact
  | uint32 => exact readUInt32_exact
  | uint64 => exact readUInt64_exact
  | array size => exact readFixed_exact size
  | bytes count => exact readBytes_exact count
  | compactSize => exact CompactSize.read_exact
  | lengthPrefixed => exact readLengthPrefixed_exact

theorem read_needs {kind : ReadKind} {width : Nat}
    (fixed : kind.width? = some width) : kind.read.Needs width := by
  cases kind with
  | uint8 => exact Option.some.inj fixed ▸ readUInt8_needs
  | uint16 => exact Option.some.inj fixed ▸ readUInt16_needs
  | uint32 => exact Option.some.inj fixed ▸ readUInt32_needs
  | uint64 => exact Option.some.inj fixed ▸ readUInt64_needs
  | array size => exact Option.some.inj fixed ▸ readFixed_needs size
  | bytes count => exact Option.some.inj fixed ▸ readBytes_needs count
  | compactSize => cases fixed
  | lengthPrefixed => cases fixed

/-- How a read fails, and where the cursor then stands.  A read of a fixed width does
not move.  A read of bytes after their length stops where reading the length does, or
behind the length if too few bytes follow it. -/
inductive FailsAt (cursor : Cursor) : ReadKind → Error → Cursor → Prop
  | short {kind : ReadKind} {width : Nat} (fixed : kind.width? = some width)
      (lacking : cursor.unread.length < width) :
      FailsAt cursor kind (.truncated width cursor.unread.length) cursor
  | compactSize {error : Error} {next : Cursor}
      (fails : CompactSize.FailsAt cursor error next) :
      FailsAt cursor compactSize error next
  | length {error : Error} {next : Cursor}
      (fails : CompactSize.FailsAt cursor error next) :
      FailsAt cursor lengthPrefixed error next
  | body {length : Nat} {rest : Bytes} (bound : length < 2 ^ 64)
      (unreadEq : cursor.unread = CompactSize.encode length ++ rest)
      (lacking : rest.length < length) :
      FailsAt cursor lengthPrefixed (.truncated length rest.length)
        ⟨cursor.position + CompactSize.size length, rest⟩

variable {kind : ReadKind} {cursor next : Cursor} {error : Error}

theorem readLengthPrefixed_eq_error_iff :
    readLengthPrefixed.runFrom cursor = (.error error, next) ↔
      FailsAt cursor lengthPrefixed error next := by
  rw [readLengthPrefixed, Reading.runFrom_bind_eq_error,
    CompactSize.read_eq_error_iff]
  constructor
  · rintro (fails | ⟨length, ⟨position, unread⟩, reads, fails⟩)
    · exact .length fails
    · obtain ⟨bound, unreadEq, positionEq⟩ :=
        (CompactSize.read_exact _ _ _).mp reads
      obtain ⟨lacking, rfl, rfl⟩ := (readBytes_needs _ _ _ _).mp fails
      rw [CompactSize.encode_length] at positionEq
      subst positionEq
      exact .body bound unreadEq lacking
  · intro fails
    cases fails with
    | short fixed lacking => cases fixed
    | length fails => exact .inl fails
    | @body length rest bound unreadEq lacking =>
        have reads : CompactSize.read.runFrom cursor =
            (.ok length, ⟨cursor.position + CompactSize.size length, rest⟩) := by
          rw [CompactSize.read_exact, ← CompactSize.encode_length]
          exact ⟨bound, unreadEq, rfl⟩
        exact .inr ⟨_, _, reads,
          (readBytes_needs _ _ _ _).mpr ⟨lacking, rfl, rfl⟩⟩

theorem readCompactSize_eq_error_iff :
    CompactSize.read.runFrom cursor = (.error error, next) ↔
      FailsAt cursor compactSize error next := by
  rw [CompactSize.read_eq_error_iff]
  constructor
  · exact .compactSize
  · intro fails
    cases fails with
    | short fixed lacking => cases fixed
    | compactSize fails => exact fails

theorem readFixedWidth_eq_error_iff {width : Nat}
    (fixed : kind.width? = some width) :
    kind.read.runFrom cursor = (.error error, next) ↔
      FailsAt cursor kind error next := by
  rw [read_needs fixed]
  constructor
  · rintro ⟨lacking, rfl, rfl⟩
    exact .short fixed lacking
  · intro fails
    cases fails with
    | short alsoFixed lacking =>
        cases fixed.symm.trans alsoFixed
        exact ⟨lacking, rfl, rfl⟩
    | compactSize fails => cases fixed
    | length fails => cases fixed
    | body bound unreadEq lacking => cases fixed

theorem read_eq_error_iff :
    kind.read.runFrom cursor = (.error error, next) ↔
      FailsAt cursor kind error next := by
  cases fixed : kind.width? with
  | some width => exact readFixedWidth_eq_error_iff fixed
  | none =>
      cases kind with
      | compactSize => exact readCompactSize_eq_error_iff
      | lengthPrefixed => exact readLengthPrefixed_eq_error_iff
      | _ => cases fixed

namespace FailsAt

theorem reaches (fails : FailsAt cursor kind error next) :
    cursor.Reaches next := by
  cases fails with
  | short fixed lacking => exact .refl cursor
  | compactSize fails => exact fails.reaches
  | length fails => exact fails.reaches
  | @body length rest bound unreadEq lacking =>
      exact ⟨CompactSize.encode length, unreadEq, by rw [CompactSize.encode_length]⟩

theorem lacks {needed remaining : Nat}
    (fails : FailsAt cursor kind (.truncated needed remaining) next) :
    remaining = next.unread.length ∧ remaining < needed := by
  cases fails with
  | short fixed lacking => exact ⟨rfl, lacking⟩
  | compactSize fails => exact fails.lacks
  | length fails => exact fails.lacks
  | body bound unreadEq lacking => exact ⟨rfl, lacking⟩

theorem passes_padded {number : Nat}
    (fails : FailsAt cursor kind (.nonMinimalCompactSize number) next) :
    next.position - cursor.position ∈ [3, 5, 9] := by
  cases fails with
  | compactSize fails => exact fails.passes_padded
  | length fails => exact fails.passes_padded

end FailsAt

end ReadKind

/-- A read that was made: what it gave, and the cursors before and after it. -/
structure PerformedRead where
  kind : ReadKind
  before : Cursor
  outcome : Except Error kind.Value
  after : Cursor

def ReadKind.perform (kind : ReadKind) (cursor : Cursor) : PerformedRead :=
  let (outcome, after) := kind.read.runFrom cursor
  ⟨kind, cursor, outcome, after⟩

/-- One read after the other, each from where the one before it left the cursor,
whether that one succeeded or not. -/
def Cursor.readAll : Cursor → List ReadKind → List PerformedRead
  | _, [] => []
  | cursor, kind :: kinds =>
      let made := kind.perform cursor
      made :: made.after.readAll kinds

/-- What holds of every read over a byte string. -/
structure PerformedRead.IsSound (bytes : Bytes) (made : PerformedRead) : Prop where
  performed : made = made.kind.perform made.before
  position_le : made.before.position ≤ made.after.position
  position_le_length : made.after.position ≤ bytes.length
  unread_eq : made.after.unread = bytes.drop made.after.position
  /-- A value is that of the bytes between the positions. -/
  value_passed : ∀ value, made.outcome = .ok value →
    made.kind.Valid value ∧
      bytes.extract made.before.position made.after.position =
        made.kind.toBytes value
  fails_at : ∀ error, made.outcome = .error error →
    ReadKind.FailsAt made.before made.kind error made.after
  passes_padded : ∀ number, made.outcome = .error (.nonMinimalCompactSize number) →
    made.after.position - made.before.position ∈ [3, 5, 9]
  /-- A shortage is that of the bytes which are then left. -/
  lacks : ∀ needed remaining, made.outcome = .error (.truncated needed remaining) →
    remaining = bytes.length - made.after.position ∧ remaining < needed

namespace ReadKind

variable {bytes : Bytes} {kind : ReadKind} {cursor next : Cursor}
  {outcome : Except Error kind.Value}

theorem perform_of_runFrom (reads : kind.read.runFrom cursor = (outcome, next)) :
    kind.perform cursor = ⟨kind, cursor, outcome, next⟩ := by
  rw [perform, reads]

theorem reaches_of_runFrom (reads : kind.read.runFrom cursor = (outcome, next)) :
    cursor.Reaches next := by
  cases outcome with
  | error error => exact (read_eq_error_iff.mp reads).reaches
  | ok value => exact ⟨_, ((kind.read_exact _ _ _).mp reads).2⟩

theorem reaches_perform (kind : ReadKind) (cursor : Cursor) :
    cursor.Reaches (kind.perform cursor).after :=
  reaches_of_runFrom rfl

/-- One read keeps to the byte string that the cursor was started on. -/
theorem isSound_perform (kind : ReadKind)
    (reached : (Cursor.start bytes).Reaches cursor) :
    (kind.perform cursor).IsSound bytes := by
  rcases reads : kind.read.runFrom cursor with ⟨outcome, next⟩
  have reaches := reaches_of_runFrom reads
  have reachedNext := reached.trans reaches
  have failsAt (error : Error) (failed : outcome = .error error) :
      FailsAt cursor kind error next :=
    read_eq_error_iff.mp (failed ▸ reads)
  have made := perform_of_runFrom reads
  rw [made]
  exact {
    performed := made.symm
    position_le := reaches.position_le
    position_le_length := reachedNext.position_le_length
    unread_eq := reachedNext.unread_eq
    value_passed := by
      intro value succeeded
      obtain ⟨valid, passes⟩ :=
        (kind.read_exact value cursor next).mp (succeeded ▸ reads)
      exact ⟨valid, passes.extract_eq reached⟩
    fails_at := failsAt
    passes_padded := fun number failed => (failsAt _ failed).passes_padded
    lacks := by
      intro needed remaining failed
      rw [← List.length_drop, ← reachedNext.unread_eq]
      exact (failsAt _ failed).lacks }

end ReadKind

namespace Cursor

variable {bytes : Bytes} {cursor : Cursor} {kinds : List ReadKind}
  {made : PerformedRead}

theorem map_kind_readAll (cursor : Cursor) (kinds : List ReadKind) :
    (cursor.readAll kinds).map PerformedRead.kind = kinds := by
  induction kinds generalizing cursor with
  | nil => rfl
  | cons kind kinds ih =>
      rw [readAll, List.map_cons, ih]
      rfl

/-- Every read of a run begins at the start of the run or after it. -/
theorem reaches_before_of_mem (member : made ∈ cursor.readAll kinds) :
    cursor.Reaches made.before ∧ made = made.kind.perform made.before := by
  induction kinds generalizing cursor with
  | nil => cases member
  | cons kind kinds ih =>
      rcases List.mem_cons.mp member with rfl | later
      · exact ⟨.refl cursor, rfl⟩
      · obtain ⟨reaches, performed⟩ := ih later
        exact ⟨(kind.reaches_perform cursor).trans reaches, performed⟩

theorem pairwise_readAll (cursor : Cursor) (kinds : List ReadKind) :
    (cursor.readAll kinds).Pairwise fun earlier later =>
      earlier.after.position ≤ later.before.position := by
  induction kinds generalizing cursor with
  | nil => exact .nil
  | cons kind kinds ih =>
      refine .cons (fun made member => ?_) (ih _)
      exact (reaches_before_of_mem member).1.position_le

theorem isSound_of_mem (reached : (start bytes).Reaches cursor)
    (member : made ∈ cursor.readAll kinds) : made.IsSound bytes := by
  obtain ⟨reaches, performed⟩ := reaches_before_of_mem member
  rw [performed]
  exact made.kind.isSound_perform (reached.trans reaches)

/-- In a run of reads over a byte string every read is made, none goes back behind
an earlier one, and each of them keeps to the byte string, whatever failed before. -/
theorem readAll_isSound (bytes : Bytes) (kinds : List ReadKind) :
    let run := (start bytes).readAll kinds
    run.map PerformedRead.kind = kinds ∧
      run.Pairwise (fun earlier later =>
        earlier.after.position ≤ later.before.position) ∧
      ∀ made ∈ run, made.IsSound bytes :=
  ⟨map_kind_readAll _ kinds, pairwise_readAll _ kinds,
    fun _ member => isSound_of_mem (.refl _) member⟩

/-- A padded count, a missing body and a cut word, and then reading goes on. -/
theorem readAll_isSound_of_failing_reads :
    let bytes : Bytes := [0xfd, 0x10, 0, 5, 0xaa, 0xfe, 1]
    let kinds : List ReadKind :=
      [.compactSize, .lengthPrefixed, .uint32, .uint16, .compactSize, .uint8]
    let run := (start bytes).readAll kinds
    run.map (fun made => made.after.position) = [3, 4, 4, 6, 7, 7] ∧
      ∃ made ∈ run, made.kind = .lengthPrefixed ∧ made.IsSound bytes := by
  intro bytes kinds run
  obtain ⟨-, -, sound⟩ := readAll_isSound bytes kinds
  have second : (ReadKind.lengthPrefixed.perform
      (ReadKind.compactSize.perform (start bytes)).after) ∈ run :=
    List.mem_cons_of_mem _ List.mem_cons_self
  exact ⟨by decide, _, second, rfl, sound _ second⟩

end Cursor

end CoinSpend
