import CoinSpend.Proofs.CutReading
import CoinSpend.Proofs.WireForm

/-!
# Why a byte string is not a transaction

Whatever counts a byte string declares, if it breaks off it can be completed to
the wire form of a transaction, with scripts of zeros and copies of one input or
output where these are missing altogether.  So the error of a byte string tells
how it lies to the wire forms: it goes on after one, it breaks off within one, or
neither.
-/

namespace CoinSpend

namespace CompactSize

theorem readField_wireFaults {width least : Nat}
    (small : least ≤ 256 ^ (width - 1)) :
    (readField width least).WireFaults (littleEndian width)
      fun count => least ≤ count ∧ count < 256 ^ width := by
  refine ⟨fun cursor => ?_, (readNumber_wireFaults width).failsOnWire.bind ?_⟩
  · have checks (count : Nat) (middle : Cursor) :
        ¬ (do if count < least then throw (.nonMinimalCompactSize count)
              return count : Reading Nat).RunsShort middle := by
      rintro ⟨needed, remaining, next, fails⟩
      obtain ⟨-, impossible, -⟩ := checkLeast_eq_error_iff.mp fails
      cases impossible
    rw [readField, Reading.runsShort_bind_iff_left checks,
      (readNumber_wireFaults width).runsShort_iff]
    constructor
    · rintro ⟨number, -, cut⟩
      have lacking := cut.length_lt
      rw [littleEndian_length] at lacking
      obtain ⟨count, enough, bound, countCut⟩ :=
        exists_isCut_littleEndian lacking small
      exact ⟨count, ⟨enough, bound⟩, countCut⟩
    · rintro ⟨count, valid, cut⟩
      exact ⟨count, valid.2, cut⟩
  · intro cursor count middle _ later error next fails
    obtain ⟨-, rfl, -⟩ := checkLeast_eq_error_iff.mp fails
    exact .inr ⟨count, rfl⟩

theorem FieldRange.readField_wireFaults {first : UInt8} {width least : Nat}
    (range : FieldRange first width least)
    (small : least ≤ 256 ^ (width - 1)) :
    (readField width least).WireFaults field
      fun count => count < 2 ^ 64 ∧ marker count = first :=
  (CompactSize.readField_wireFaults small).congr range.range_iff
    fun count valid => range.field_eq count valid.2

/-- Every first byte begins the form of some count. -/
theorem exists_marker_eq (first : UInt8) :
    ∃ count < 2 ^ 64, marker count = first := by
  by_cases wide : first = 0xff
  · exact ⟨0x100000000, by decide, wide.symm⟩
  by_cases middle : first = 0xfe
  · exact ⟨0x10000, by decide, middle.symm⟩
  by_cases narrow : first = 0xfd
  · exact ⟨0xfd, by decide, narrow.symm⟩
  have small := toNat_lt_of_ne wide middle narrow
  exact ⟨first.toNat, (marker_eq_iff_of_small small _).mpr rfl⟩

theorem read_wireFaults :
    read.WireFaults encode fun count => count < 2 ^ 64 := by
  have faults : read.WireFaults (fun count => [marker count] ++ field count)
      fun count => count < 2 ^ 64 := by
    refine readUInt8_wireFaults.bind marker readUInt8_exact
      (fun _ _ => trivial) (fun first _ => exists_marker_eq first)
      fun first _ => ?_
    split
    · subst first
      exact fieldRange_ff.readField_wireFaults (by decide)
    split
    · subst first
      exact fieldRange_fe.readField_wireFaults (by decide)
    split
    · subst first
      exact fieldRange_fd.readField_wireFaults (by decide)
    rename_i notWide notMiddle notNarrow
    have small := toNat_lt_of_ne notWide notMiddle notNarrow
    refine (Reading.WireFaults.pure first.toNat).congr (fun _ => Iff.rfl)
      fun count valid => ?_
    rw [(marker_eq_iff_of_small small count).mp valid, field_of_small small]
  exact faults.congr (fun _ => Iff.rfl) fun count _ =>
    (encode_eq_cons count).symm

end CompactSize

theorem readLengthPrefixed_wireFaults :
    readLengthPrefixed.WireFaults lengthPrefixed
      fun bytes => bytes.length < 2 ^ 64 := by
  refine CompactSize.read_wireFaults.bind List.length CompactSize.read_exact
    (fun _ valid => valid) (fun count bound => ?_) fun count bound => ?_
  · have length : (List.replicate count (0 : UInt8)).length = count :=
      List.length_replicate
    exact ⟨List.replicate count 0, length.symm ▸ bound, length⟩
  · refine (readBytes_wireFaults count).congr (fun bytes => ?_) fun _ _ => rfl
    constructor
    · rintro rfl
      exact ⟨bound, rfl⟩
    · exact fun valid => valid.2

section Items

variable {α : Type} {item : Reading α} {itemBytes : α → Bytes}
  {Valid : α → Prop}

theorem readItems_succ_runsShort_iff {count : Nat} {cursor : Cursor} :
    (readItems item (count + 1)).RunsShort cursor ↔
      item.RunsShort cursor ∨
        ∃ first middle, item.runFrom cursor = (.ok first, middle) ∧
          (readItems item count).RunsShort middle := by
  rw [readItems, Reading.runsShort_bind_iff]
  simp only [Reading.runsShort_bind_iff_left
    fun _ => Reading.not_runsShort_pure _]

/-- Items are cut in the first one or after it.  In the first one, copies of it
can stand for the missing ones. -/
theorem exists_isCut_items_succ_iff {count : Nat} {bytes : Bytes} :
    (∃ items : List α, ((∀ member ∈ items, Valid member) ∧
        items.length = count + 1) ∧ IsCut bytes (items.flatMap itemBytes)) ↔
      (∃ first, Valid first ∧ IsCut bytes (itemBytes first)) ∨
        ∃ first unread, Valid first ∧ bytes = itemBytes first ++ unread ∧
          ∃ items : List α, ((∀ member ∈ items, Valid member) ∧
            items.length = count) ∧ IsCut unread (items.flatMap itemBytes) := by
  constructor
  · rintro ⟨items, ⟨valid, length⟩, cut⟩
    obtain ⟨first, rest, rfl⟩ := List.exists_cons_of_length_eq_add_one length
    obtain ⟨firstValid, restValid⟩ := List.forall_mem_cons.mp valid
    rw [List.flatMap_cons] at cut
    rcases isCut_append_iff.mp cut with cutFirst | ⟨unread, bytesEq, cutRest⟩
    · exact .inl ⟨first, firstValid, cutFirst⟩
    · exact .inr ⟨first, unread, firstValid, bytesEq, rest,
        ⟨restValid, Nat.succ.inj length⟩, cutRest⟩
  · rintro (⟨first, valid, cut⟩ |
      ⟨first, unread, firstValid, bytesEq, rest, ⟨restValid, length⟩, cut⟩)
    · refine ⟨List.replicate (count + 1) first, ⟨?_, List.length_replicate⟩, ?_⟩
      · intro member memberMem
        rwa [List.eq_of_mem_replicate memberMem]
      · exact isCut_append_iff.mpr (.inl cut)
    · refine ⟨first :: rest, ⟨?_, congrArg Nat.succ length⟩, ?_⟩
      · exact List.forall_mem_cons.mpr ⟨firstValid, restValid⟩
      · exact isCut_append_iff.mpr (.inr ⟨unread, bytesEq, cut⟩)

theorem readItems_wireFaults (faults : item.WireFaults itemBytes Valid)
    (exact : item.Exact itemBytes Valid) (count : Nat) :
    (readItems item count).WireFaults (List.flatMap itemBytes)
      fun items => (∀ member ∈ items, Valid member) ∧ items.length = count := by
  induction count with
  | zero =>
      refine (Reading.WireFaults.pure []).congr (fun _ => Iff.rfl)
        fun items valid => ?_
      rw [List.length_eq_zero_iff.mp valid.2, List.flatMap_nil]
  | succ count ih =>
      refine ⟨fun cursor => ?_, faults.failsOnWire.bind fun _ _ _ _ =>
        ih.failsOnWire.bind fun _ _ _ _ => Reading.failsOnWire_pure _⟩
      rw [readItems_succ_runsShort_iff, exists_isCut_items_succ_iff,
        faults.runsShort_iff]
      refine or_congr_right ?_
      constructor
      · rintro ⟨first, middle, reads, short⟩
        obtain ⟨valid, unreadEq, -⟩ := (exact _ _ _).mp reads
        exact ⟨first, middle.unread, valid, unreadEq,
          (ih.runsShort_iff middle).mp short⟩
      · rintro ⟨first, unread, valid, unreadEq, cut⟩
        let middle : Cursor :=
          ⟨cursor.position + (itemBytes first).length, unread⟩
        exact ⟨first, middle, (exact _ _ _).mpr ⟨valid, unreadEq, rfl⟩,
          (ih.runsShort_iff middle).mpr cut⟩

theorem readCountPrefixed_wireFaults (faults : item.WireFaults itemBytes Valid)
    (exact : item.Exact itemBytes Valid) (sample : α)
    (sampleValid : Valid sample) :
    (readCountPrefixed item).WireFaults (countPrefixed itemBytes)
      fun items => items.length < 2 ^ 64 ∧ ∀ member ∈ items, Valid member := by
  refine CompactSize.read_wireFaults.bind List.length CompactSize.read_exact
    (fun _ valid => valid.1) (fun count bound => ?_) fun count bound => ?_
  · have length : (List.replicate count sample).length = count :=
      List.length_replicate
    refine ⟨List.replicate count sample, ⟨length.symm ▸ bound, ?_⟩, length⟩
    intro member memberMem
    rwa [List.eq_of_mem_replicate memberMem]
  · refine (readItems_wireFaults faults exact count).congr (fun items => ?_)
      fun _ _ => rfl
    constructor
    · rintro ⟨valid, rfl⟩
      exact ⟨⟨bound, valid⟩, rfl⟩
    · rintro ⟨⟨-, valid⟩, length⟩
      exact ⟨valid, length⟩

end Items

theorem OutPoint.read_wireFaults :
    OutPoint.read.WireFaults OutPoint.toBytes fun _ => True := by
  have faults : OutPoint.read.WireFaults _ fun _ => True :=
    (readFixed_wireFaults 32).bind OutPoint.hash (readFixed_exact 32)
      (fun _ _ => trivial) (fun hash _ => ⟨⟨hash, 0⟩, trivial, rfl⟩)
      fun hash _ =>
    readUInt32_wireFaults.bind OutPoint.index readUInt32_exact
      (fun _ _ => trivial) (fun index _ => ⟨⟨hash, index⟩, ⟨trivial, rfl⟩, rfl⟩)
      fun index _ =>
    Reading.WireFaults.pure _
  exact faults.congr (fun _ => Iff.rfl) fun place _ => by
    simp [OutPoint.toBytes]

theorem TxInput.read_wireFaults :
    TxInput.read.WireFaults TxInput.toBytes TxInput.WireSized := by
  have faults : TxInput.read.WireFaults _ TxInput.WireSized :=
    OutPoint.read_wireFaults.bind TxInput.prevout OutPoint.read_exact
      (fun _ _ => trivial)
      (fun prevout _ => ⟨⟨prevout, .empty, 0⟩, Nat.two_pow_pos 64, rfl⟩)
      fun prevout _ =>
    readLengthPrefixed_wireFaults.bind
      (fun input : TxInput => input.unlocking.toBytes) readLengthPrefixed_exact
      (fun _ valid => valid.1)
      (fun unlocking bound => ⟨⟨prevout, ⟨unlocking⟩, 0⟩, ⟨bound, rfl⟩, rfl⟩)
      fun unlocking bound =>
    readUInt32_wireFaults.bind TxInput.sequence readUInt32_exact
      (fun _ _ => trivial)
      (fun sequence _ =>
        ⟨⟨prevout, ⟨unlocking⟩, sequence⟩, ⟨⟨bound, rfl⟩, rfl⟩, rfl⟩)
      fun sequence _ =>
    Reading.WireFaults.pure _
  exact faults.congr (fun _ => Iff.rfl) fun input _ => by
    simp [TxInput.toBytes]

theorem TxOutput.read_wireFaults :
    TxOutput.read.WireFaults TxOutput.toBytes TxOutput.WireSized := by
  have faults : TxOutput.read.WireFaults _ TxOutput.WireSized :=
    readUInt64_wireFaults.bind TxOutput.value readUInt64_exact
      (fun _ _ => trivial)
      (fun value _ => ⟨⟨value, .empty⟩, Nat.two_pow_pos 64, rfl⟩)
      fun value _ =>
    readLengthPrefixed_wireFaults.bind
      (fun output : TxOutput => output.locking.toBytes)
      readLengthPrefixed_exact (fun _ valid => valid.1)
      (fun locking bound => ⟨⟨value, ⟨locking⟩⟩, ⟨bound, rfl⟩, rfl⟩)
      fun locking bound =>
    Reading.WireFaults.pure _
  exact faults.congr (fun _ => Iff.rfl) fun output _ => by
    simp [TxOutput.toBytes]

namespace Transaction

theorem read_wireFaults : read.WireFaults toBytes WireSized := by
  have noInputs : ([] : List TxInput).length < 2 ^ 64 ∧
      ∀ input ∈ ([] : List TxInput), input.WireSized := by simp
  have noOutputs : ([] : List TxOutput).length < 2 ^ 64 ∧
      ∀ output ∈ ([] : List TxOutput), output.WireSized := by simp
  have inputFaults := readCountPrefixed_wireFaults TxInput.read_wireFaults
    TxInput.read_exact ⟨⟨FixedBytes.ofNat 32 0, 0⟩, .empty, 0⟩
    (Nat.two_pow_pos 64)
  have outputFaults := readCountPrefixed_wireFaults TxOutput.read_wireFaults
    TxOutput.read_exact ⟨0, .empty⟩ (Nat.two_pow_pos 64)
  have faults : read.WireFaults _ WireSized :=
    readUInt32_wireFaults.bind version readUInt32_exact (fun _ _ => trivial)
      (fun version _ => ⟨⟨version, [], [], 0⟩,
        ⟨noInputs.1, noInputs.2, noOutputs.1, noOutputs.2⟩, rfl⟩)
      fun version _ =>
    inputFaults.bind inputs (readCountPrefixed_exact TxInput.read_exact)
      (fun _ valid => ⟨valid.1.inputs_length_lt, valid.1.inputs_sized⟩)
      (fun inputs valid => ⟨⟨version, inputs, [], 0⟩,
        ⟨⟨valid.1, valid.2, noOutputs.1, noOutputs.2⟩, rfl⟩, rfl⟩)
      fun inputs inputsValid =>
    outputFaults.bind outputs (readCountPrefixed_exact TxOutput.read_exact)
      (fun _ valid => ⟨valid.1.1.outputs_length_lt, valid.1.1.outputs_sized⟩)
      (fun outputs valid => ⟨⟨version, inputs, outputs, 0⟩,
        ⟨⟨⟨inputsValid.1, inputsValid.2, valid.1, valid.2⟩, rfl⟩, rfl⟩, rfl⟩)
      fun outputs outputsValid =>
    readUInt32_wireFaults.bind lockTime readUInt32_exact (fun _ _ => trivial)
      (fun lockTime _ => ⟨⟨version, inputs, outputs, lockTime⟩,
        ⟨⟨⟨⟨inputsValid.1, inputsValid.2, outputsValid.1, outputsValid.2⟩,
          rfl⟩, rfl⟩, rfl⟩, rfl⟩)
      fun lockTime _ =>
    Reading.WireFaults.pure _
  exact faults.congr (fun _ => Iff.rfl) fun tx _ => by simp [toBytes]

variable {bytes : Bytes}

theorem ofBytes_eq_error_iff_runFrom {error : Error} :
    ofBytes bytes = .error error ↔
      (∃ next, read.runFrom (.start bytes) = (.error error, next)) ∨
        ∃ tx next, read.runFrom (.start bytes) = (.ok tx, next) ∧
          next.unread ≠ [] ∧ error = .trailingData next.unread.length := by
  unfold ofBytes
  rcases read.runFrom (.start bytes) with ⟨outcome, next⟩
  cases outcome with
  | error found => simp
  | ok tx =>
      by_cases finished : next.unread = []
      · simp [finished]
      · simp [finished, eq_comm]

/-- What is left over follows a whole wire form. -/
theorem ofBytes_eq_trailingData_iff {count : Nat} :
    ofBytes bytes = .error (.trailingData count) ↔
      1 ≤ count ∧ ∃ tx extra, WireSized tx ∧ extra.length = count ∧
        bytes = tx.toBytes ++ extra := by
  rw [ofBytes_eq_error_iff_runFrom]
  constructor
  · rintro (⟨next, fails⟩ | ⟨tx, next, reads, unfinished, sameCount⟩)
    · rcases read_wireFaults.failsOnWire _ _ _ fails with
        ⟨_, _, same⟩ | ⟨_, same⟩
      · cases same
      · cases same
    · obtain ⟨sized, unreadEq, -⟩ := (read_exact _ _ _).mp reads
      have positive := List.length_pos_iff.mpr unfinished
      cases sameCount
      exact ⟨positive, tx, next.unread, sized, rfl, unreadEq⟩
  · rintro ⟨positive, tx, extra, sized, rfl, rfl⟩
    refine .inr ⟨tx, ⟨tx.toBytes.length, extra⟩, ?_,
      List.length_pos_iff.mp positive, rfl⟩
    exact (read_exact _ _ _).mpr ⟨sized, rfl, (Nat.zero_add _).symm⟩

theorem ofBytes_eq_truncated_iff :
    (∃ needed remaining, ofBytes bytes = .error (.truncated needed remaining)) ↔
      ∃ tx, WireSized tx ∧ IsCut bytes tx.toBytes := by
  refine Iff.trans ?_ (read_wireFaults.runsShort_iff (.start bytes))
  simp only [Reading.RunsShort, ofBytes_eq_error_iff_runFrom, reduceCtorEq,
    and_false, exists_false, or_false]

theorem ofBytes_cases (bytes : Bytes) :
    (∃ tx, ofBytes bytes = .ok tx) ∨
      (∃ count, ofBytes bytes = .error (.trailingData count)) ∨
      (∃ needed remaining,
        ofBytes bytes = .error (.truncated needed remaining)) ∨
      ∃ number, ofBytes bytes = .error (.nonMinimalCompactSize number) := by
  cases outcome : ofBytes bytes with
  | ok tx => exact .inl ⟨tx, rfl⟩
  | error error =>
      right
      rcases ofBytes_eq_error_iff_runFrom.mp outcome with
        ⟨next, fails⟩ | ⟨tx, next, -, -, rfl⟩
      · right
        rcases read_wireFaults.failsOnWire _ _ _ fails with
          ⟨needed, remaining, rfl⟩ | ⟨number, rfl⟩
        · exact .inl ⟨needed, remaining, rfl⟩
        · exact .inr ⟨number, rfl⟩
      · exact .inl ⟨_, rfl⟩

theorem ofBytes_append {tx : Transaction} (sized : tx.WireSized)
    (extra : Bytes) :
    ofBytes (tx.toBytes ++ extra) = .ok tx ∨
      ∃ count, ofBytes (tx.toBytes ++ extra) =
        .error (.trailingData count) := by
  by_cases nothing : extra = []
  · left
    rw [nothing, List.append_nil]
    exact ofBytes_toBytes sized
  · right
    refine ⟨extra.length, ofBytes_eq_trailingData_iff.mpr ?_⟩
    exact ⟨List.length_pos_iff.mpr nothing, tx, extra, sized, rfl, rfl⟩

theorem ofBytes_of_append {tx : Transaction} {missing : Bytes}
    (sized : tx.WireSized) (completed : bytes ++ missing = tx.toBytes) :
    ofBytes bytes = .ok tx ∨
      ∃ needed remaining,
        ofBytes bytes = .error (.truncated needed remaining) := by
  by_cases nothing : missing = []
  · left
    rw [nothing, List.append_nil] at completed
    rw [completed]
    exact ofBytes_toBytes sized
  · right
    apply ofBytes_eq_truncated_iff.mpr
    exact ⟨tx, sized, missing, nothing, completed.symm⟩

/-- A count is refused exactly if no wire form begins the byte string and the
byte string begins no wire form. -/
theorem ofBytes_eq_nonMinimal_iff :
    (∃ number, ofBytes bytes = .error (.nonMinimalCompactSize number)) ↔
      ∀ tx, WireSized tx → ¬ tx.toBytes <+: bytes ∧ ¬ bytes <+: tx.toBytes := by
  constructor
  · rintro ⟨number, refused⟩ tx sized
    constructor
    · rintro ⟨extra, rfl⟩
      rcases ofBytes_append sized extra with accepted | ⟨count, trailing⟩
      · simp [accepted] at refused
      · simp [trailing] at refused
    · rintro ⟨missing, completed⟩
      rcases ofBytes_of_append sized completed with
        accepted | ⟨needed, remaining, truncated⟩
      · simp [accepted] at refused
      · simp [truncated] at refused
  · intro unrelated
    rcases ofBytes_cases bytes with
      ⟨tx, accepted⟩ | ⟨count, trailing⟩ | ⟨needed, remaining, truncated⟩ |
        refused
    · obtain ⟨sized, rfl⟩ := wireForm_of_ofBytes accepted
      exact absurd (List.prefix_refl _) (unrelated tx sized).1
    · obtain ⟨-, tx, extra, sized, -, rfl⟩ :=
        ofBytes_eq_trailingData_iff.mp trailing
      exact absurd (List.prefix_append _ _) (unrelated tx sized).1
    · obtain ⟨tx, sized, missing, -, completed⟩ :=
        ofBytes_eq_truncated_iff.mp ⟨needed, remaining, truncated⟩
      exact absurd ⟨missing, completed.symm⟩ (unrelated tx sized).2
    · exact refused

/-- A byte string that goes on after a wire form has as many bytes too many, one
that breaks off within a wire form is truncated, whatever counts it declares, and
every other one that is not accepted has a count that is not in its shortest
form. -/
theorem ofBytes_errors_classified (bytes : Bytes) :
    (∀ count, ofBytes bytes = .error (.trailingData count) ↔
      1 ≤ count ∧ ∃ tx extra, WireSized tx ∧ extra.length = count ∧
        bytes = tx.toBytes ++ extra) ∧
      ((∃ needed remaining,
          ofBytes bytes = .error (.truncated needed remaining)) ↔
        ∃ tx, WireSized tx ∧ IsCut bytes tx.toBytes) ∧
      ((∃ number, ofBytes bytes = .error (.nonMinimalCompactSize number)) ↔
        ∀ tx, WireSized tx →
          ¬ tx.toBytes <+: bytes ∧ ¬ bytes <+: tx.toBytes) ∧
      ∀ error, ofBytes bytes = .error error →
        (∃ count, error = .trailingData count) ∨
          (∃ needed remaining, error = .truncated needed remaining) ∨
          ∃ number, error = .nonMinimalCompactSize number := by
  refine ⟨fun _ => ofBytes_eq_trailingData_iff, ofBytes_eq_truncated_iff,
    ofBytes_eq_nonMinimal_iff, fun error refused => ?_⟩
  simpa [refused] using ofBytes_cases bytes

end Transaction

end CoinSpend
