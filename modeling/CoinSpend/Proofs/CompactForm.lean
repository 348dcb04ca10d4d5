import CoinSpend.Proofs.CountedReading
import CoinSpend.Proofs.CutReading

/-!
# Compact sizes are a minimal prefix code

Each count below `2 ^ 64` has one form, the shortest one, and no form begins another
one.  A first byte announces the width of the field after it, so that reading a count
fails in three ways: there is no first byte, the field is cut, or the field is there
and holds a number that a shorter form holds.
-/

namespace CoinSpend

namespace CompactSize

/-- The number of bytes in the field that a first byte announces. -/
def fieldWidth (first : UInt8) : Nat :=
  if first = 0xff then 8
  else if first = 0xfe then 4
  else if first = 0xfd then 2
  else 0

/-- How reading a field of the given width fails, and where the cursor then
stands. -/
inductive FieldFails (cursor : Cursor) (width : Nat) : Error → Cursor → Prop
  | cut (short : cursor.unread.length < width) :
      FieldFails cursor width (.truncated width cursor.unread.length) cursor
  | padded {field rest : Bytes} (unreadEq : cursor.unread = field ++ rest)
      (wide : field.length = width)
      (shorter : size (littleEndianValue field) < 1 + width) :
      FieldFails cursor width (.nonMinimalCompactSize (littleEndianValue field))
        ⟨cursor.position + width, rest⟩

/-- How reading a count fails, and where the cursor then stands: where it was if
nothing is left, behind the first byte if the field is cut, and behind the field if
that is longer than its number needs. -/
inductive FailsAt (cursor : Cursor) : Error → Cursor → Prop
  | missing (nothingLeft : cursor.unread = []) :
      FailsAt cursor (.truncated 1 0) cursor
  | cut {first : UInt8} {rest : Bytes} (unreadEq : cursor.unread = first :: rest)
      (short : rest.length < fieldWidth first) :
      FailsAt cursor (.truncated (fieldWidth first) rest.length)
        ⟨cursor.position + 1, rest⟩
  | padded {first : UInt8} {field rest : Bytes}
      (unreadEq : cursor.unread = first :: (field ++ rest))
      (wide : field.length = fieldWidth first)
      (shorter : size (littleEndianValue field) < 1 + fieldWidth first) :
      FailsAt cursor (.nonMinimalCompactSize (littleEndianValue field))
        ⟨cursor.position + (1 + fieldWidth first), rest⟩

variable {cursor next : Cursor} {error : Error} {width least count : Nat}

/-- The numbers of a field of the given width that a shorter form holds are those
below the least one. -/
def IsLeastFor (width least : Nat) : Prop :=
  ∀ number < 256 ^ width, number < least ↔ size number < 1 + width

theorem isLeastFor_eight : IsLeastFor 8 0x100000000 := by
  intro number bound
  grind [size]

theorem isLeastFor_four : IsLeastFor 4 0x10000 := by
  intro number bound
  grind [size]

theorem isLeastFor_two : IsLeastFor 2 0xfd := by
  intro number bound
  grind [size]

theorem IsLeastFor.readField_eq_error_iff (isLeast : IsLeastFor width least) :
    (readField width least).runFrom cursor = (.error error, next) ↔
      FieldFails cursor width error next := by
  rw [readField, Reading.runFrom_bind_eq_error, readNumber_needs]
  simp only [checkLeast_eq_error_iff]
  constructor
  · rintro (⟨short, rfl, rfl⟩ | ⟨number, middle, reads, small, rfl, rfl⟩)
    · exact .cut short
    · obtain ⟨bound, unreadEq, positionEq⟩ :=
        (readNumber_exact _ _ _ _).mp reads
      have value : littleEndianValue (littleEndian width number) = number := by
        rw [littleEndianValue_littleEndian, Nat.mod_eq_of_lt bound]
      have wide := littleEndian_length width number
      have shorter := (isLeast number bound).mp small
      rw [wide] at positionEq
      have fails : FieldFails cursor width _ ⟨cursor.position + width, next.unread⟩ :=
        .padded unreadEq wide (by rwa [value])
      rwa [value, ← positionEq] at fails
  · intro fails
    cases fails with
    | cut short => exact .inl ⟨short, rfl, rfl⟩
    | @padded field rest unreadEq wide shorter =>
        subst wide
        have bound := littleEndianValue_lt field
        have passes : cursor.Passes
            (littleEndian field.length (littleEndianValue field))
            ⟨cursor.position + field.length, rest⟩ := by
          rw [littleEndian_littleEndianValue]
          exact ⟨unreadEq, rfl⟩
        exact .inr ⟨littleEndianValue field, _,
          (readNumber_exact _ _ _ _).mpr ⟨bound, passes⟩,
          (isLeast _ bound).mpr shorter, rfl, rfl⟩

theorem one_le_size (count : Nat) : 1 ≤ size count := by
  unfold size
  repeat' split
  all_goals decide

/-- No form is shorter than one without a field. -/
theorem not_fieldFails_zero : ¬ FieldFails cursor 0 error next := by
  rintro (short | ⟨-, -, shorter⟩)
  · exact absurd short (Nat.not_lt_zero _)
  · exact absurd shorter (Nat.not_lt.mpr (one_le_size _))

theorem readAnnounced_eq_error_iff (first : UInt8) :
    (if first = 0xff then readField 8 0x100000000
      else if first = 0xfe then readField 4 0x10000
      else if first = 0xfd then readField 2 0xfd
      else return first.toNat : Reading Nat).runFrom cursor =
        (.error error, next) ↔
      FieldFails cursor (fieldWidth first) error next := by
  unfold fieldWidth
  split
  · exact isLeastFor_eight.readField_eq_error_iff
  split
  · exact isLeastFor_four.readField_eq_error_iff
  split
  · exact isLeastFor_two.readField_eq_error_iff
  simp [not_fieldFails_zero]

theorem read_eq_error_iff :
    read.runFrom cursor = (.error error, next) ↔ FailsAt cursor error next := by
  rw [read, Reading.runFrom_bind_eq_error, readUInt8_needs]
  simp only [readAnnounced_eq_error_iff]
  constructor
  · rintro (⟨short, rfl, rfl⟩ | ⟨first, ⟨position, unread⟩, reads, fails⟩)
    · have nothingLeft : next.unread = [] :=
        List.length_eq_zero_iff.mp (Nat.lt_one_iff.mp short)
      rw [nothingLeft]
      exact .missing nothingLeft
    · obtain ⟨-, unreadEq, rfl⟩ := (readUInt8_exact _ _ _).mp reads
      cases fails with
      | cut short => exact .cut unreadEq short
      | padded fieldEq wide shorter =>
          subst fieldEq
          rw [Nat.add_assoc]
          exact .padded unreadEq wide shorter
  · intro fails
    -- behind the first byte, where the field is read
    have reads {first : UInt8} {rest : Bytes}
        (unreadEq : cursor.unread = first :: rest) :
        readUInt8.runFrom cursor = (.ok first, ⟨cursor.position + 1, rest⟩) :=
      (readUInt8_exact _ _ _).mpr ⟨trivial, unreadEq, rfl⟩
    cases fails with
    | missing nothingLeft =>
        refine .inl ⟨?_, ?_, rfl⟩ <;> rw [nothingLeft]
        · decide
        · rfl
    | cut unreadEq short =>
        exact .inr ⟨_, _, reads unreadEq, .cut short⟩
    | padded unreadEq wide shorter =>
        rw [← Nat.add_assoc]
        exact .inr ⟨_, _, reads unreadEq, .padded rfl wide shorter⟩

theorem fieldWidth_mem (first : UInt8) : fieldWidth first ∈ [0, 2, 4, 8] := by
  unfold fieldWidth
  repeat' split
  all_goals decide

namespace FailsAt

theorem reaches (fails : FailsAt cursor error next) : cursor.Reaches next := by
  cases fails with
  | missing nothingLeft => exact .refl cursor
  | cut unreadEq short => exact ⟨[_], unreadEq, rfl⟩
  | @padded first field rest unreadEq wide shorter =>
      refine ⟨first :: field, unreadEq, ?_⟩
      rw [List.length_cons, wide, Nat.add_comm 1]

/-- A shortage is that of the bytes which are left at the end. -/
theorem lacks {needed remaining : Nat}
    (fails : FailsAt cursor (.truncated needed remaining) next) :
    remaining = next.unread.length ∧ remaining < needed := by
  cases fails with
  | missing nothingLeft => exact ⟨by rw [nothingLeft]; rfl, by decide⟩
  | cut unreadEq short => exact ⟨rfl, short⟩

/-- A refused form is passed over as a whole. -/
theorem passes_padded {number : Nat}
    (fails : FailsAt cursor (.nonMinimalCompactSize number) next) :
    next.position - cursor.position ∈ [3, 5, 9] := by
  cases fails with
  | @padded first field rest unreadEq wide shorter =>
      have positive := one_le_size (littleEndianValue field)
      have announced := fieldWidth_mem first
      simp only [List.mem_cons, List.not_mem_nil, or_false] at announced ⊢
      omega

end FailsAt

section Decoding

variable {bytes : Bytes} {taken : Nat}

theorem decode_eq_ok_iff_begins :
    decode bytes = .ok (count, taken) ↔
      count < 2 ^ 64 ∧ taken = size count ∧
        ∃ suffix, bytes = encode count ++ suffix := by
  have readIff : decode bytes = .ok (count, taken) ↔
      ∃ next, read.runFrom (.start bytes) = (.ok count, next) ∧
        taken = next.position := by
    unfold decode
    rcases read.runFrom (.start bytes) with ⟨outcome, after⟩
    cases outcome <;> simp [Except.map, eq_comm]
  rw [readIff]
  simp only [read_exact count]
  constructor
  · rintro ⟨next, ⟨bound, unreadEq, positionEq⟩, rfl⟩
    rw [encode_length] at positionEq
    exact ⟨bound, positionEq.trans (Nat.zero_add _), next.unread, unreadEq⟩
  · rintro ⟨bound, rfl, suffix, rfl⟩
    refine ⟨⟨size count, suffix⟩, ⟨bound, rfl, ?_⟩, rfl⟩
    rw [encode_length]
    exact (Nat.zero_add _).symm

theorem decode_eq_error_iff_failsAt :
    decode bytes = .error error ↔ ∃ next, FailsAt (.start bytes) error next := by
  simp only [← read_eq_error_iff]
  unfold decode
  rcases read.runFrom (.start bytes) with ⟨outcome, after⟩
  cases outcome <;> simp [Except.map]

theorem eq_of_begins {first second : Nat} (firstBound : first < 2 ^ 64)
    (secondBound : second < 2 ^ 64) (begins : encode first <+: encode second) :
    first = second := by
  obtain ⟨rest, same⟩ := begins
  have joined : encode first ++ rest = encode second ++ [] := by
    rw [same, List.append_nil]
  exact (read_exact.append_inj firstBound secondBound joined).1

end Decoding

/-- Decoding accepts exactly the byte strings that begin with the form of a count,
and no form begins another one.  A byte string is refused where it breaks off before
the announced field ends, and where the field is there and the number in it has a
shorter form. -/
theorem decode_minimal_prefix_code :
    (∀ bytes count taken, decode bytes = .ok (count, taken) ↔
        count < 2 ^ 64 ∧ taken = size count ∧
          ∃ suffix, bytes = encode count ++ suffix) ∧
      (∀ count, (encode count).length = size count) ∧
      (∀ first second : UInt64,
        encode first.toNat <+: encode second.toNat ↔ first = second) ∧
      ∀ bytes error, decode bytes = .error error ↔
        (bytes = [] ∧ error = .truncated 1 0) ∨
          (∃ first rest, bytes = first :: rest ∧
            rest.length < fieldWidth first ∧
            error = .truncated (fieldWidth first) rest.length) ∨
          ∃ first field rest, bytes = first :: (field ++ rest) ∧
            field.length = fieldWidth first ∧
            (encode (littleEndianValue field)).length < 1 + field.length ∧
            error = .nonMinimalCompactSize (littleEndianValue field) := by
  refine ⟨fun bytes count taken => decode_eq_ok_iff_begins, encode_length,
    fun first second => ⟨fun begins => ?_, ?_⟩, fun bytes error => ?_⟩
  · exact UInt64.toNat_inj.mp
      (eq_of_begins first.toNat_lt second.toNat_lt begins)
  · rintro rfl
    exact List.prefix_rfl
  · simp only [encode_length]
    rw [decode_eq_error_iff_failsAt]
    constructor
    · rintro ⟨next, nothingLeft | ⟨unreadEq, short⟩ | ⟨unreadEq, wide, shorter⟩⟩
      · exact .inl ⟨nothingLeft, rfl⟩
      · exact .inr (.inl ⟨_, _, unreadEq, short, rfl⟩)
      · exact .inr (.inr ⟨_, _, _, unreadEq, wide, wide.symm ▸ shorter, rfl⟩)
    · rintro (⟨nothingLeft, rfl⟩ | ⟨first, rest, unreadEq, short, rfl⟩ |
        ⟨first, field, rest, unreadEq, wide, shorter, rfl⟩)
      · exact ⟨_, .missing nothingLeft⟩
      · exact ⟨_, .cut unreadEq short⟩
      · exact ⟨_, .padded unreadEq wide (wide ▸ shorter)⟩

end CompactSize

end CoinSpend
