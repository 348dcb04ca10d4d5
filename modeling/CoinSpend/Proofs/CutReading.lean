import CoinSpend.Proofs.ExactReading

/-!
# How reading a written form fails

Missing bytes make a read run short, and a count that is not in its shortest form
is refused.  Nothing else can go wrong.  A read runs short exactly where the
unread bytes can be completed to a written form, and this is carried from the
parts of a format to the whole, as exactness is.
-/

namespace CoinSpend

/-- The first byte string begins the second one and ends before it. -/
def IsCut (bytes whole : Bytes) : Prop :=
  ∃ missing, missing ≠ [] ∧ whole = bytes ++ missing

theorem not_isCut_nil (bytes : Bytes) : ¬ IsCut bytes [] := by
  rintro ⟨missing, nonempty, same⟩
  exact nonempty (List.append_eq_nil_iff.mp same.symm).2

/-- A joined byte string is cut in its first part or after it. -/
theorem isCut_append_iff {bytes first second : Bytes} :
    IsCut bytes (first ++ second) ↔
      IsCut bytes first ∨ ∃ rest, bytes = first ++ rest ∧ IsCut rest second := by
  constructor
  · rintro ⟨missing, nonempty, same⟩
    rcases List.append_eq_append_iff.mp same with
      ⟨rest, bytesEq, secondEq⟩ | ⟨lost, firstEq, missingEq⟩
    · exact .inr ⟨rest, bytesEq, missing, nonempty, secondEq⟩
    · by_cases atEnd : lost = []
      · subst atEnd
        refine .inr ⟨[], ?_, second, ?_, rfl⟩
        · simpa using firstEq.symm
        · rwa [← List.nil_append second, ← missingEq]
      · exact .inl ⟨lost, atEnd, firstEq⟩
  · rintro (⟨missing, nonempty, rfl⟩ | ⟨rest, rfl, missing, nonempty, rfl⟩)
    · refine ⟨missing ++ second, ?_, List.append_assoc _ _ _⟩
      exact List.append_ne_nil_of_left_ne_nil nonempty second
    · exact ⟨missing, nonempty, (List.append_assoc _ _ _).symm⟩

theorem IsCut.length_lt {bytes whole : Bytes} (cut : IsCut bytes whole) :
    bytes.length < whole.length := by
  obtain ⟨missing, nonempty, rfl⟩ := cut
  have positive := List.length_pos_iff.mpr nonempty
  rw [List.length_append]
  omega

theorem exists_isCut_of_length_lt {bytes : Bytes} {size : Nat}
    (short : bytes.length < size) :
    ∃ whole, whole.length = size ∧ IsCut bytes whole := by
  refine ⟨bytes ++ List.replicate (size - bytes.length) 0, ?_, _, ?_, rfl⟩
  · rw [List.length_append, List.length_replicate]
    omega
  · rw [ne_eq, List.replicate_eq_nil_iff]
    omega

namespace Reading

variable {α β : Type}

/-- Reading from the cursor fails because bytes are missing. -/
def RunsShort (reading : Reading α) (cursor : Cursor) : Prop :=
  ∃ needed remaining next,
    reading.runFrom cursor = (.error (.truncated needed remaining), next)

theorem runFrom_bind_eq_error {reading : Reading α} {rest : α → Reading β}
    {cursor next : Cursor} {error : Error} :
    (reading >>= rest).runFrom cursor = (.error error, next) ↔
      reading.runFrom cursor = (.error error, next) ∨
        ∃ part middle, reading.runFrom cursor = (.ok part, middle) ∧
          (rest part).runFrom middle = (.error error, next) := by
  rw [runFrom_bind]
  rcases reading.runFrom cursor with ⟨outcome, middle⟩
  cases outcome with
  | error found => simp
  | ok part =>
      constructor
      · intro failsRest
        exact .inr ⟨part, middle, rfl, failsRest⟩
      · rintro (impossible | ⟨_, _, same, failsRest⟩)
        · cases impossible
        · cases same
          exact failsRest

theorem runsShort_bind_iff {reading : Reading α} {rest : α → Reading β}
    {cursor : Cursor} :
    (reading >>= rest).RunsShort cursor ↔
      reading.RunsShort cursor ∨
        ∃ part middle, reading.runFrom cursor = (.ok part, middle) ∧
          (rest part).RunsShort middle := by
  simp only [RunsShort, runFrom_bind_eq_error]
  constructor
  · rintro ⟨needed, remaining, next, first | ⟨part, middle, reads, second⟩⟩
    · exact .inl ⟨needed, remaining, next, first⟩
    · exact .inr ⟨part, middle, reads, needed, remaining, next, second⟩
  · rintro (⟨needed, remaining, next, first⟩ |
      ⟨part, middle, reads, needed, remaining, next, second⟩)
    · exact ⟨needed, remaining, next, .inl first⟩
    · exact ⟨needed, remaining, next, .inr ⟨part, middle, reads, second⟩⟩

theorem not_runsShort_pure (value : α) (cursor : Cursor) :
    ¬ (pure value : Reading α).RunsShort cursor := by
  rintro ⟨needed, remaining, next, fails⟩
  rw [runFrom_pure] at fails
  cases fails

theorem runsShort_bind_iff_left {reading : Reading α} {rest : α → Reading β}
    {cursor : Cursor}
    (restFinishes : ∀ value middle, ¬ (rest value).RunsShort middle) :
    (reading >>= rest).RunsShort cursor ↔ reading.RunsShort cursor := by
  rw [runsShort_bind_iff]
  refine or_iff_left ?_
  rintro ⟨value, middle, -, short⟩
  exact restFinishes value middle short

/-- Reading fails only because bytes are missing or because a count is not in its
shortest form. -/
def FailsOnWire (reading : Reading α) : Prop :=
  ∀ cursor error next, reading.runFrom cursor = (.error error, next) →
    (∃ needed remaining, error = .truncated needed remaining) ∨
      ∃ number, error = .nonMinimalCompactSize number

theorem failsOnWire_pure (value : α) :
    (pure value : Reading α).FailsOnWire := by
  intro cursor error next fails
  rw [runFrom_pure] at fails
  cases fails

theorem FailsOnWire.bind {reading : Reading α} {rest : α → Reading β}
    (first : reading.FailsOnWire)
    (second : ∀ cursor value middle,
      reading.runFrom cursor = (.ok value, middle) →
        (rest value).FailsOnWire) :
    (reading >>= rest).FailsOnWire := by
  intro cursor error next fails
  rcases runFrom_bind_eq_error.mp fails with
    failsFirst | ⟨value, middle, reads, failsRest⟩
  · exact first _ _ _ failsFirst
  · exact second _ _ _ reads _ _ _ failsRest

/-- How a reader of written forms fails: by running short, exactly where the
unread bytes can be completed to the written form of a valid value, or by
refusing a count. -/
structure WireFaults (reading : Reading α) (toBytes : α → Bytes)
    (Valid : α → Prop) : Prop where
  runsShort_iff : ∀ cursor, reading.RunsShort cursor ↔
    ∃ value, Valid value ∧ IsCut cursor.unread (toBytes value)
  failsOnWire : reading.FailsOnWire

namespace WireFaults

variable {reading : Reading α} {toBytes otherBytes : α → Bytes}
  {Valid OtherValid : α → Prop}

theorem congr (faults : reading.WireFaults toBytes Valid)
    (validIff : ∀ value, Valid value ↔ OtherValid value)
    (bytesEq : ∀ value, OtherValid value → toBytes value = otherBytes value) :
    reading.WireFaults otherBytes OtherValid := by
  refine ⟨fun cursor => ?_, faults.failsOnWire⟩
  rw [faults.runsShort_iff]
  refine exists_congr fun value => ?_
  rw [validIff]
  exact and_congr_right fun valid => by rw [bytesEq value valid]

/-- Returning a value cannot fail. -/
theorem pure (value : α) :
    (Pure.pure value : Reading α).WireFaults (fun _ => []) Valid := by
  refine ⟨fun cursor => ?_, failsOnWire_pure value⟩
  refine iff_of_false (not_runsShort_pure value cursor) ?_
  rintro ⟨_, -, cut⟩
  exact not_isCut_nil _ cut

/-- A format of two parts runs short in the first part, which can then be
completed by any second one, or in the second part. -/
theorem bind {rest : α → Reading β} {restBytes : β → Bytes}
    {WholeValid : β → Prop} (faults : reading.WireFaults toBytes Valid)
    (part : β → α) (exact : reading.Exact toBytes Valid)
    (partValid : ∀ whole, WholeValid whole → Valid (part whole))
    (completes : ∀ value, Valid value →
      ∃ whole, WholeValid whole ∧ part whole = value)
    (restFaults : ∀ value, Valid value →
      (rest value).WireFaults restBytes
        fun whole => WholeValid whole ∧ part whole = value) :
    (reading >>= rest).WireFaults
      (fun whole => toBytes (part whole) ++ restBytes whole) WholeValid := by
  refine ⟨fun cursor => ?_, faults.failsOnWire.bind ?_⟩
  · rw [runsShort_bind_iff, faults.runsShort_iff]
    simp only [isCut_append_iff]
    constructor
    · rintro (⟨value, valid, cut⟩ | ⟨value, middle, reads, short⟩)
      · obtain ⟨whole, wholeValid, rfl⟩ := completes value valid
        exact ⟨whole, wholeValid, .inl cut⟩
      · obtain ⟨valid, unreadEq, -⟩ := (exact _ _ _).mp reads
        obtain ⟨whole, ⟨wholeValid, rfl⟩, cut⟩ :=
          ((restFaults value valid).runsShort_iff middle).mp short
        exact ⟨whole, wholeValid, .inr ⟨middle.unread, unreadEq, cut⟩⟩
    · rintro ⟨whole, wholeValid, cut | ⟨unread, unreadEq, cut⟩⟩
      · exact .inl ⟨part whole, partValid whole wholeValid, cut⟩
      · have valid := partValid whole wholeValid
        let middle : Cursor :=
          ⟨cursor.position + (toBytes (part whole)).length, unread⟩
        have reads : reading.runFrom cursor = (.ok (part whole), middle) :=
          (exact _ _ _).mpr ⟨valid, unreadEq, rfl⟩
        refine .inr ⟨part whole, middle, reads, ?_⟩
        apply ((restFaults _ valid).runsShort_iff middle).mpr
        exact ⟨whole, ⟨wholeValid, rfl⟩, cut⟩
  · intro cursor value middle reads
    exact (restFaults value ((exact _ _ _).mp reads).1).failsOnWire

/-- What is made from what was read fails in the same way, whatever its written
forms are called, as long as they are the same byte strings. -/
theorem map {make : α → β} {wholeBytes : β → Bytes} {WholeValid : β → Prop}
    (faults : reading.WireFaults toBytes Valid)
    (sameForms : ∀ bytes, (∃ value, Valid value ∧ toBytes value = bytes) ↔
      ∃ whole, WholeValid whole ∧ wholeBytes whole = bytes) :
    (do return make (← reading) : Reading β).WireFaults wholeBytes
      WholeValid := by
  refine ⟨fun cursor => ?_,
    faults.failsOnWire.bind fun _ _ _ _ => failsOnWire_pure _⟩
  rw [runsShort_bind_iff_left fun _ => not_runsShort_pure _,
    faults.runsShort_iff]
  constructor
  · rintro ⟨value, valid, cut⟩
    obtain ⟨whole, wholeValid, same⟩ := (sameForms _).mp ⟨value, valid, rfl⟩
    exact ⟨whole, wholeValid, same ▸ cut⟩
  · rintro ⟨whole, wholeValid, cut⟩
    obtain ⟨value, valid, same⟩ := (sameForms _).mpr ⟨whole, wholeValid, rfl⟩
    exact ⟨value, valid, same ▸ cut⟩

end WireFaults

/-- Reading fails exactly if fewer than `width` bytes are left, and then the cursor
stays where it is. -/
def Needs (reading : Reading α) (width : Nat) : Prop :=
  ∀ cursor error next, reading.runFrom cursor = (.error error, next) ↔
    cursor.unread.length < width ∧
      error = .truncated width cursor.unread.length ∧ next = cursor

theorem Needs.map {reading : Reading α} {width : Nat}
    (needs : reading.Needs width) (make : α → β) :
    (do return make (← reading) : Reading β).Needs width := by
  intro cursor error next
  rw [runFrom_bind_eq_error, needs]
  refine or_iff_left ?_
  rintro ⟨value, middle, -, fails⟩
  rw [runFrom_pure] at fails
  cases fails

end Reading

theorem readFixed_needs (size : Nat) : (readFixed size).Needs size := by
  intro cursor error next
  rw [runFrom_readFixed]
  by_cases enough : (cursor.unread.take size).length = size
  · have notShort : ¬ cursor.unread.length < size := by
      rw [List.length_take] at enough
      omega
    simp only [enough, dite_true, Prod.mk.injEq, reduceCtorEq, notShort,
      false_and]
  · have short : cursor.unread.length < size := by
      rw [List.length_take] at enough
      omega
    simp only [enough, dite_false, Prod.mk.injEq, Except.error.injEq, short,
      true_and, eq_comm]

theorem readBytes_needs (count : Nat) : (readBytes count).Needs count :=
  (readFixed_needs count).map FixedBytes.toBytes

theorem readNumber_needs (width : Nat) : (readNumber width).Needs width :=
  (readBytes_needs width).map littleEndianValue

theorem readUInt8_needs : readUInt8.Needs 1 :=
  (readNumber_needs 1).map UInt8.ofNat

theorem readUInt16_needs : readUInt16.Needs 2 :=
  (readNumber_needs 2).map UInt16.ofNat

theorem readUInt32_needs : readUInt32.Needs 4 :=
  (readNumber_needs 4).map UInt32.ofNat

theorem readUInt64_needs : readUInt64.Needs 8 :=
  (readNumber_needs 8).map UInt64.ofNat

theorem readFixed_wireFaults (size : Nat) :
    (readFixed size).WireFaults FixedBytes.toBytes fun _ => True := by
  refine ⟨fun cursor => ?_, fun cursor error next fails => ?_⟩
  · simp only [Reading.RunsShort, readFixed_needs size _ _ _]
    constructor
    · rintro ⟨needed, remaining, next, lacking, -⟩
      obtain ⟨whole, length, cut⟩ := exists_isCut_of_length_lt lacking
      exact ⟨⟨whole, length⟩, trivial, cut⟩
    · rintro ⟨value, -, cut⟩
      have lacking := cut.length_lt
      rw [value.length_toBytes] at lacking
      exact ⟨_, _, _, lacking, rfl, rfl⟩
  · obtain ⟨-, rfl, -⟩ := (readFixed_needs size _ _ _).mp fails
    exact .inl ⟨_, _, rfl⟩

theorem readBytes_wireFaults (count : Nat) :
    (readBytes count).WireFaults id fun bytes => bytes.length = count := by
  apply (readFixed_wireFaults count).map
  intro bytes
  constructor
  · rintro ⟨value, -, rfl⟩
    exact ⟨value.toBytes, value.length_toBytes, rfl⟩
  · rintro ⟨whole, length, rfl⟩
    exact ⟨⟨whole, length⟩, trivial, rfl⟩

theorem readNumber_wireFaults (width : Nat) :
    (readNumber width).WireFaults (littleEndian width)
      fun number => number < 256 ^ width := by
  apply (readBytes_wireFaults width).map
  intro bytes
  constructor
  · rintro ⟨whole, rfl, rfl⟩
    exact ⟨_, littleEndianValue_lt whole, littleEndian_littleEndianValue whole⟩
  · rintro ⟨number, -, rfl⟩
    exact ⟨_, littleEndian_length width number, rfl⟩

theorem readWord_wireFaults {α : Type} {width : Nat} {ofNat : Nat → α}
    (toNat : α → Nat) (toNat_lt : ∀ word, toNat word < 256 ^ width)
    (toNat_ofNat : ∀ number < 256 ^ width, toNat (ofNat number) = number) :
    (do return ofNat (← readNumber width) : Reading α).WireFaults
      (fun word => littleEndian width (toNat word)) fun _ => True := by
  apply (readNumber_wireFaults width).map
  intro bytes
  constructor
  · rintro ⟨number, bound, rfl⟩
    refine ⟨ofNat number, trivial, ?_⟩
    rw [toNat_ofNat number bound]
  · rintro ⟨word, -, rfl⟩
    exact ⟨toNat word, toNat_lt word, rfl⟩

theorem readUInt8_wireFaults :
    readUInt8.WireFaults (fun byte => [byte]) fun _ => True := by
  have faults : readUInt8.WireFaults _ _ :=
    readWord_wireFaults UInt8.toNat (fun byte => byte.toNat_lt)
      fun number bound => UInt8.toNat_ofNat_of_lt' bound
  exact faults.congr (fun _ => Iff.rfl) fun byte _ => by simp [littleEndian]

theorem readUInt32_wireFaults :
    readUInt32.WireFaults (fun word => littleEndian 4 word.toNat)
      fun _ => True :=
  readWord_wireFaults UInt32.toNat (fun word => word.toNat_lt)
    fun _ bound => UInt32.toNat_ofNat_of_lt' bound

theorem readUInt64_wireFaults :
    readUInt64.WireFaults (fun word => littleEndian 8 word.toNat)
      fun _ => True :=
  readWord_wireFaults UInt64.toNat (fun word => word.toNat_lt)
    fun _ bound => UInt64.toNat_ofNat_of_lt' bound

/-- A field that is cut can be completed to one of a large number, by a last
byte that is not zero. -/
theorem exists_isCut_littleEndian {bytes : Bytes} {width least : Nat}
    (short : bytes.length < width) (small : least ≤ 256 ^ (width - 1)) :
    ∃ number, least ≤ number ∧ number < 256 ^ width ∧
      IsCut bytes (littleEndian width number) := by
  let zeros : Bytes := List.replicate (width - 1 - bytes.length) 0
  let whole : Bytes := bytes ++ (zeros ++ [1])
  have wide : whole.length = width := by
    simp only [whole, zeros, List.length_append, List.length_replicate,
      List.length_singleton]
    omega
  have frontWide : (bytes ++ zeros).length = width - 1 := by
    simp only [zeros, List.length_append, List.length_replicate]
    omega
  have written := littleEndian_littleEndianValue whole
  rw [wide] at written
  refine ⟨littleEndianValue whole, ?_, wide ▸ littleEndianValue_lt whole, ?_⟩
  · calc
      least ≤ 256 ^ (width - 1) * 1 := by omega
      _ ≤ littleEndianValue (bytes ++ zeros) + 256 ^ (width - 1) * 1 :=
        Nat.le_add_left _ _
      _ = littleEndianValue whole := by
        simp only [whole]
        rw [← List.append_assoc, littleEndianValue_append (bytes ++ zeros),
          frontWide]
        rfl
  · rw [written]
    exact ⟨zeros ++ [1], List.append_ne_nil_of_right_ne_nil _ (by simp), rfl⟩

end CoinSpend
