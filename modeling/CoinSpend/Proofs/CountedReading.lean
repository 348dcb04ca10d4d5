import CoinSpend.Proofs.ExactReading
import CoinSpend.Transaction

/-!
# Counts, and what is read after them

A count below `2 ^ 64` has one written form that is accepted, the shortest one.
So has every byte string and every list after its count, as soon as the items of
the list do.
-/

namespace CoinSpend

namespace CompactSize

/-- The first byte of a count. -/
def marker (count : Nat) : UInt8 :=
  if count < 0xfd then UInt8.ofNat count
  else if count ≤ 0xffff then 0xfd
  else if count ≤ 0xffffffff then 0xfe
  else 0xff

/-- The bytes of a count after the first one. -/
def field (count : Nat) : Bytes :=
  if count < 0xfd then []
  else if count ≤ 0xffff then littleEndian 2 count
  else if count ≤ 0xffffffff then littleEndian 4 count
  else littleEndian 8 count

theorem encode_eq_cons (count : Nat) :
    encode count = marker count :: field count := by
  unfold encode marker field
  repeat' split
  all_goals rfl

theorem toNat_marker (count : Nat) :
    (marker count).toNat =
      if count < 0xfd then count
      else if count ≤ 0xffff then 0xfd
      else if count ≤ 0xffffffff then 0xfe
      else 0xff := by
  unfold marker
  repeat' split
  · rw [UInt8.toNat_ofNat']
    omega
  all_goals rfl

theorem checkLeast_eq_error_iff {least count : Nat} {refusal error : Error}
    {cursor next : Cursor} :
    (do if count < least then throw refusal
        return count : Reading Nat).runFrom cursor = (.error error, next) ↔
      count < least ∧ error = refusal ∧ next = cursor := by
  split
  · rename_i short
    simp [short, eq_comm]
  · rename_i enough
    simp [enough]

theorem readField_exact (width least : Nat) :
    (readField width least).Exact (littleEndian width)
      fun count => least ≤ count ∧ count < 256 ^ width := by
  have exact : (readField width least).Exact
      (fun count => littleEndian width count ++ [])
      fun count => least ≤ count ∧ count < 256 ^ width := by
    refine (readNumber_exact width).bind id (fun _ valid => valid.2)
      fun count bound => ?_
    by_cases short : count < least
    · simp only [short, if_true]
      intro other cursor next
      constructor
      · intro reads
        rw [Reading.runFrom_bind, Reading.runFrom_throw] at reads
        cases reads
      · rintro ⟨⟨⟨enough, -⟩, same⟩, -⟩
        cases same
        exact absurd short (Nat.not_lt.mpr enough)
    · simp only [short, if_false]
      refine Reading.Exact.pure fun other => ?_
      constructor
      · exact fun valid => valid.2
      · rintro rfl
        exact ⟨⟨Nat.not_lt.mp short, bound⟩, rfl⟩
  exact exact.congr (fun _ => Iff.rfl) fun _ _ => List.append_nil _

/-- A first byte announces a field of a given width, for the counts of one
range. -/
structure FieldRange (first : UInt8) (width least : Nat) : Prop where
  range_iff : ∀ count, least ≤ count ∧ count < 256 ^ width ↔
    count < 2 ^ 64 ∧ marker count = first
  field_eq : ∀ count, marker count = first →
    littleEndian width count = field count

theorem fieldRange_of_toNat {first : UInt8} {width least : Nat}
    (range : ∀ count, least ≤ count ∧ count < 256 ^ width ↔
      count < 2 ^ 64 ∧ (marker count).toNat = first.toNat)
    (fieldEq : ∀ count, (marker count).toNat = first.toNat →
      littleEndian width count = field count) :
    FieldRange first width least := by
  simp only [UInt8.toNat_inj] at range fieldEq
  exact ⟨range, fieldEq⟩

theorem fieldRange_ff : FieldRange 0xff 8 0x100000000 :=
  fieldRange_of_toNat (by grind [toNat_marker]) (by grind [toNat_marker, field])

theorem fieldRange_fe : FieldRange 0xfe 4 0x10000 :=
  fieldRange_of_toNat (by grind [toNat_marker]) (by grind [toNat_marker, field])

theorem fieldRange_fd : FieldRange 0xfd 2 0xfd :=
  fieldRange_of_toNat (by grind [toNat_marker]) (by grind [toNat_marker, field])

theorem FieldRange.readField_exact {first : UInt8} {width least : Nat}
    (range : FieldRange first width least) :
    (readField width least).Exact field
      fun count => count < 2 ^ 64 ∧ marker count = first :=
  (CompactSize.readField_exact width least).congr range.range_iff
    fun count valid => range.field_eq count valid.2

/-- A first byte that announces no field is the count itself. -/
theorem marker_eq_iff_of_small {first : UInt8} (small : first.toNat < 0xfd)
    (count : Nat) :
    (count < 2 ^ 64 ∧ marker count = first) ↔ count = first.toNat := by
  rw [← UInt8.toNat_inj, toNat_marker]
  grind

theorem field_of_small {count : Nat} (small : count < 0xfd) :
    field count = [] :=
  if_pos small

theorem toNat_lt_of_ne {first : UInt8} (notWide : first ≠ 0xff)
    (notMiddle : first ≠ 0xfe) (notNarrow : first ≠ 0xfd) :
    first.toNat < 0xfd := by
  have bound := first.toNat_lt
  simp [← UInt8.toNat_inj] at notWide notMiddle notNarrow
  omega

theorem read_exact : read.Exact encode fun count => count < 2 ^ 64 := by
  have exact : read.Exact (fun count => [marker count] ++ field count)
      fun count => count < 2 ^ 64 := by
    refine readUInt8_exact.bind marker (fun _ _ => trivial) fun first _ => ?_
    -- the three first bytes that announce a field, the widest one first
    split
    · subst first
      exact fieldRange_ff.readField_exact
    split
    · subst first
      exact fieldRange_fe.readField_exact
    split
    · subst first
      exact fieldRange_fd.readField_exact
    rename_i notWide notMiddle notNarrow
    have small := toNat_lt_of_ne notWide notMiddle notNarrow
    have validIff := marker_eq_iff_of_small small
    refine (Reading.Exact.pure validIff).congr (fun _ => Iff.rfl)
      fun count valid => ?_
    rw [(validIff count).mp valid, field_of_small small]
  exact exact.congr (fun _ => Iff.rfl) fun count _ =>
    (encode_eq_cons count).symm

end CompactSize

theorem readLengthPrefixed_exact :
    readLengthPrefixed.Exact lengthPrefixed
      fun bytes => bytes.length < 2 ^ 64 := by
  refine CompactSize.read_exact.bind List.length (fun _ valid => valid)
    fun count bound => ?_
  refine (readBytes_exact count).congr (fun bytes => ?_) fun _ _ => rfl
  constructor
  · rintro rfl
    exact ⟨bound, rfl⟩
  · exact fun valid => valid.2

variable {α : Type} {item : Reading α} {itemBytes : α → Bytes}
  {Valid : α → Prop}

theorem readItems_exact (exact : item.Exact itemBytes Valid) (count : Nat) :
    (readItems item count).Exact (List.flatMap itemBytes)
      fun items => (∀ member ∈ items, Valid member) ∧ items.length = count := by
  induction count with
  | zero =>
      refine (Reading.Exact.pure fun items => ?_).congr (fun _ => Iff.rfl)
        fun items valid => ?_
      · constructor
        · exact fun valid => List.length_eq_zero_iff.mp valid.2
        · rintro rfl
          simp
      · rw [List.length_eq_zero_iff.mp valid.2, List.flatMap_nil]
  | succ count ih =>
      intro items cursor next
      rw [readItems, Reading.runFrom_bind_eq_ok]
      constructor
      · rintro ⟨first, middle, readsFirst, readsRest⟩
        obtain ⟨rest, last, readsItems, returns⟩ :=
          Reading.runFrom_bind_eq_ok.mp readsRest
        cases returns
        obtain ⟨firstValid, passesFirst⟩ := (exact _ _ _).mp readsFirst
        obtain ⟨⟨restValid, lengthEq⟩, passesRest⟩ := (ih _ _ _).mp readsItems
        refine ⟨⟨?_, by simp [lengthEq]⟩, ?_⟩
        · simpa using ⟨firstValid, restValid⟩
        · rw [List.flatMap_cons]
          exact Cursor.passes_append.mpr ⟨middle, passesFirst, passesRest⟩
      · rintro ⟨⟨valid, lengthEq⟩, passes⟩
        obtain ⟨first, rest, rfl⟩ := List.exists_cons_of_length_eq_add_one lengthEq
        rw [List.flatMap_cons] at passes
        obtain ⟨middle, passesFirst, passesRest⟩ :=
          Cursor.passes_append.mp passes
        have firstValid := valid first List.mem_cons_self
        have restValid : ∀ member ∈ rest, Valid member :=
          fun member memberMem => valid member (List.mem_cons_of_mem _ memberMem)
        have restLength : rest.length = count := by simpa using lengthEq
        refine ⟨first, middle, (exact _ _ _).mpr ⟨firstValid, passesFirst⟩, ?_⟩
        exact Reading.runFrom_bind_eq_ok.mpr ⟨rest, next,
          (ih _ _ _).mpr ⟨⟨restValid, restLength⟩, passesRest⟩, rfl⟩

theorem readCountPrefixed_exact (exact : item.Exact itemBytes Valid) :
    (readCountPrefixed item).Exact (countPrefixed itemBytes)
      fun items => items.length < 2 ^ 64 ∧ ∀ member ∈ items, Valid member := by
  refine CompactSize.read_exact.bind List.length (fun _ valid => valid.1)
    fun count bound => ?_
  refine (readItems_exact exact count).congr (fun items => ?_)
    fun _ _ => rfl
  constructor
  · rintro ⟨valid, rfl⟩
    exact ⟨⟨bound, valid⟩, rfl⟩
  · rintro ⟨⟨-, valid⟩, lengthEq⟩
    exact ⟨valid, lengthEq⟩

end CoinSpend
