import CoinSpend.Proofs.WireForm
import CoinSpend.SignatureHash

/-!
# What a signature commits to

The byte string that is hashed for a signature determines the hash type, the
script code and a view of the transaction, and is determined by them.  The view
is smaller the more the hash type leaves open.
-/

namespace CoinSpend

namespace Transaction

/-- The arguments for which a preimage is hashed, with counts that fit their
fields. -/
structure Hashable (tx : Transaction) (index : Nat) (type : HashType)
    (scriptCode : Script) : Prop where
  index_lt : index < tx.inputs.length
  output_lt : type.outputs = .single → index < tx.outputs.length
  sized : tx.WireSized
  scriptCode_lt : scriptCode.size < 2 ^ 64

instance (tx : Transaction) (index : Nat) (type : HashType)
    (scriptCode : Script) : Decidable (tx.Hashable index type scriptCode) :=
  decidable_of_iff
    (index < tx.inputs.length ∧
      (type.outputs = .single → index < tx.outputs.length) ∧
      tx.WireSized ∧ scriptCode.size < 2 ^ 64)
    ⟨fun ⟨indexBound, outputBound, sized, codeBound⟩ =>
      ⟨indexBound, outputBound, sized, codeBound⟩,
    fun hashable => ⟨hashable.index_lt, hashable.output_lt, hashable.sized,
      hashable.scriptCode_lt⟩⟩

/-- Two signed inputs, of two transactions or of one, agree on everything that a
signature of the given type commits to. -/
structure SameCommitment (type : HashType) (first second : Transaction)
    (firstIndex secondIndex : Nat) : Prop where
  version_eq : first.version = second.version
  lockTime_eq : first.lockTime = second.lockTime
  prevout_eq : first.inputs[firstIndex]?.map TxInput.prevout =
    second.inputs[secondIndex]?.map TxInput.prevout
  sequence_eq : first.inputs[firstIndex]?.map TxInput.sequence =
    second.inputs[secondIndex]?.map TxInput.sequence
  prevouts_eq : type.anyoneCanPay = false →
    first.inputs.map TxInput.prevout = second.inputs.map TxInput.prevout
  sequences_eq : type.anyoneCanPay = false → type.outputs = .all →
    first.inputs.map TxInput.sequence = second.inputs.map TxInput.sequence
  outputs_eq : type.outputs = .all → first.outputs = second.outputs
  output_eq : type.outputs = .single → firstIndex = secondIndex ∧
    first.outputs[firstIndex]? = second.outputs[secondIndex]?

/-- An input of the signed copy, before those of others are left out. -/
def preparedInput (index : Nat) (type : HashType) (scriptCode : Script)
    (place : Nat) (input : TxInput) : TxInput :=
  if place = index then { input with unlocking := scriptCode }
  else otherInput type input

/-- What a change of each item keeps is the same list before and after. -/
private theorem map_mapIdx_of_kept {α β : Type} {change : Nat → α → α}
    {view : α → β} (kept : ∀ place item, view (change place item) = view item)
    (items : List α) :
    (items.mapIdx change).map view = items.map view := by
  apply List.ext_getElem?
  intro place
  rw [List.getElem?_map, List.getElem?_mapIdx, List.getElem?_map,
    Option.map_map]
  congr 1
  funext item
  exact kept place item

theorem prevout_preparedInput (index : Nat) (type : HashType)
    (scriptCode : Script) (place : Nat) (input : TxInput) :
    (preparedInput index type scriptCode place input).prevout =
      input.prevout := by
  unfold preparedInput
  split <;> rfl

theorem sequence_preparedInput_of_all {type : HashType}
    (all : type.outputs = .all) (index : Nat) (scriptCode : Script)
    (place : Nat) (input : TxInput) :
    (preparedInput index type scriptCode place input).sequence =
      input.sequence := by
  unfold preparedInput
  split
  · rfl
  · simp [otherInput, all]

/-- Only the signed input and, under `all`, every input keeps its sequence. -/
theorem preparedInput_congr {index place : Nat} {type : HashType}
    {scriptCode : Script} {first second : TxInput}
    (prevoutEq : first.prevout = second.prevout)
    (sequenceEq : place = index ∨ type.outputs = .all →
      first.sequence = second.sequence) :
    preparedInput index type scriptCode place first =
      preparedInput index type scriptCode place second := by
  unfold preparedInput otherInput
  by_cases signed : place = index
  · simp [signed, prevoutEq, sequenceEq (Or.inl signed)]
  · by_cases all : type.outputs = .all
    · simp [signed, all, prevoutEq, sequenceEq (Or.inr all)]
    · simp [signed, all, prevoutEq]

theorem committedInputs_eq (tx : Transaction) (index : Nat) (type : HashType)
    (scriptCode : Script) (shared : type.anyoneCanPay = false) :
    tx.committedInputs index type scriptCode =
      tx.inputs.mapIdx (preparedInput index type scriptCode) := by
  unfold committedInputs
  rw [shared]
  rfl

theorem committedInputs_eq_singleton {tx : Transaction} {index : Nat}
    {input : TxInput} (found : tx.inputs[index]? = some input)
    {type : HashType} (alone : type.anyoneCanPay = true)
    (scriptCode : Script) :
    tx.committedInputs index type scriptCode =
      [{ input with unlocking := scriptCode }] := by
  unfold committedInputs
  simp [alone, found]

/-- The signed copy's inputs, when others' inputs are left out. -/
theorem committedInputs_eq_iff_alone {first second : Transaction}
    {firstIndex secondIndex : Nat} {firstCode secondCode : Script}
    {type : HashType} (alone : type.anyoneCanPay = true)
    (firstBound : firstIndex < first.inputs.length)
    (secondBound : secondIndex < second.inputs.length) :
    first.committedInputs firstIndex type firstCode =
        second.committedInputs secondIndex type secondCode ↔
      firstCode = secondCode ∧
        first.inputs[firstIndex]?.map TxInput.prevout =
          second.inputs[secondIndex]?.map TxInput.prevout ∧
        first.inputs[firstIndex]?.map TxInput.sequence =
          second.inputs[secondIndex]?.map TxInput.sequence := by
  have firstFound := List.getElem?_eq_getElem firstBound
  have secondFound := List.getElem?_eq_getElem secondBound
  rw [committedInputs_eq_singleton firstFound alone,
    committedInputs_eq_singleton secondFound alone, firstFound, secondFound]
  simp only [List.cons.injEq, and_true, TxInput.mk.injEq, Option.map_some,
    Option.some.injEq]
  exact and_left_comm

/-- The signed copy's inputs, when all inputs are kept. -/
theorem committedInputs_eq_iff_shared {first second : Transaction}
    {index : Nat} {firstCode secondCode : Script} {type : HashType}
    (shared : type.anyoneCanPay = false)
    (firstBound : index < first.inputs.length)
    (secondBound : index < second.inputs.length) :
    first.committedInputs index type firstCode =
        second.committedInputs index type secondCode ↔
      firstCode = secondCode ∧
        first.inputs[index]?.map TxInput.sequence =
          second.inputs[index]?.map TxInput.sequence ∧
        first.inputs.map TxInput.prevout = second.inputs.map TxInput.prevout ∧
        (type.outputs = .all → first.inputs.map TxInput.sequence =
          second.inputs.map TxInput.sequence) := by
  rw [committedInputs_eq _ _ _ _ shared, committedInputs_eq _ _ _ _ shared]
  constructor
  · intro same
    have atIndex := congrArg (fun inputs => inputs[index]?) same
    simp only [List.getElem?_mapIdx, List.getElem?_eq_getElem firstBound,
      List.getElem?_eq_getElem secondBound, preparedInput, if_true,
      Option.map_some, Option.some.injEq, TxInput.mk.injEq] at atIndex
    obtain ⟨-, codeEq, sequenceEq⟩ := atIndex
    refine ⟨codeEq, ?_, ?_, fun all => ?_⟩
    · simp [firstBound, secondBound, sequenceEq]
    · have prevouts := congrArg (List.map TxInput.prevout) same
      rwa [map_mapIdx_of_kept (prevout_preparedInput index type firstCode),
        map_mapIdx_of_kept (prevout_preparedInput index type secondCode)]
        at prevouts
    · have sequences := congrArg (List.map TxInput.sequence) same
      rwa [map_mapIdx_of_kept (sequence_preparedInput_of_all all index _),
        map_mapIdx_of_kept (sequence_preparedInput_of_all all index _)]
        at sequences
  · rintro ⟨rfl, sequenceEq, prevoutsEq, sequencesEq⟩
    apply List.ext_getElem?
    intro place
    rw [List.getElem?_mapIdx, List.getElem?_mapIdx]
    have prevoutAt := congrArg (fun places => places[place]?) prevoutsEq
    simp only [List.getElem?_map] at prevoutAt
    have sequenceAt (all : type.outputs = .all) :=
      congrArg (fun sequences => sequences[place]?) (sequencesEq all)
    simp only [List.getElem?_map] at sequenceAt
    cases firstFound : first.inputs[place]? with
    | none =>
        cases secondFound : second.inputs[place]? with
        | none => rfl
        | some secondInput => simp [firstFound, secondFound] at prevoutAt
    | some firstInput =>
        cases secondFound : second.inputs[place]? with
        | none => simp [firstFound, secondFound] at prevoutAt
        | some secondInput =>
            simp only [firstFound, secondFound, Option.map_some,
              Option.some.injEq] at prevoutAt sequenceAt ⊢
            refine preparedInput_congr prevoutAt fun kept => ?_
            rcases kept with rfl | all
            · simpa [firstFound, secondFound] using sequenceEq
            · exact sequenceAt all

/-- Under `single` the outputs before the signed one are blanked, and those
after it are dropped. -/
theorem committedOutputs_eq_of_single {tx : Transaction} {index : Nat}
    {type : HashType} {output : TxOutput} (single : type.outputs = .single)
    (found : tx.outputs[index]? = some output) :
    tx.committedOutputs index type =
      List.replicate index blankOutput ++ [output] := by
  have bound := (List.getElem?_eq_some_iff.mp found).1
  unfold committedOutputs
  rw [single]
  apply List.ext_getElem?
  intro place
  rw [List.getElem?_mapIdx, List.getElem?_take]
  rcases Nat.lt_trichotomy place index with before | rfl | after
  · have inside : place < tx.outputs.length := Nat.lt_trans before bound
    simp [before, Nat.lt_succ_of_lt before, inside]
  · simp [found]
  · have outside : ¬ place < index + 1 := by omega
    have past : (List.replicate index blankOutput ++ [output]).length ≤
        place := by simpa using Nat.succ_le_of_lt after
    rw [if_neg outside, List.getElem?_eq_none past, Option.map_none]

/-- The signed copy's outputs. -/
theorem committedOutputs_eq_iff {first second : Transaction}
    {firstIndex secondIndex : Nat} {type : HashType}
    (firstBound : type.outputs = .single → firstIndex < first.outputs.length)
    (secondBound : type.outputs = .single →
      secondIndex < second.outputs.length) :
    first.committedOutputs firstIndex type =
        second.committedOutputs secondIndex type ↔
      (type.outputs = .all → first.outputs = second.outputs) ∧
        (type.outputs = .single → firstIndex = secondIndex ∧
          first.outputs[firstIndex]? = second.outputs[secondIndex]?) := by
  cases scope : type.outputs with
  | all => simp [committedOutputs, scope]
  | none => simp [committedOutputs, scope]
  | single =>
      have firstFound := List.getElem?_eq_getElem (firstBound scope)
      have secondFound := List.getElem?_eq_getElem (secondBound scope)
      rw [committedOutputs_eq_of_single scope firstFound,
        committedOutputs_eq_of_single scope secondFound, firstFound,
        secondFound]
      simp only [reduceCtorEq, false_implies, true_and, true_implies]
      constructor
      · intro same
        obtain ⟨blanksEq, outputEq⟩ := List.append_inj' same rfl
        have indexEq := congrArg List.length blanksEq
        simp only [List.length_replicate] at indexEq
        simp only [List.cons.injEq, and_true] at outputEq
        exact ⟨indexEq, congrArg some outputEq⟩
      · rintro ⟨rfl, outputEq⟩
        rw [Option.some.inj outputEq]

theorem unlocking_preparedInput_size_le (index : Nat) (type : HashType)
    (scriptCode : Script) (place : Nat) (input : TxInput) :
    (preparedInput index type scriptCode place input).unlocking.size ≤
      scriptCode.size := by
  unfold preparedInput
  split
  · exact Nat.le_refl _
  · exact Nat.zero_le _

theorem committedInputs_sized {tx : Transaction} {index : Nat}
    {type : HashType} {scriptCode : Script}
    (hashable : tx.Hashable index type scriptCode) :
    (tx.committedInputs index type scriptCode).length < 2 ^ 64 ∧
      ∀ input ∈ tx.committedInputs index type scriptCode,
        input.WireSized := by
  have codeBound := hashable.scriptCode_lt
  cases alone : type.anyoneCanPay with
  | true =>
      have found := List.getElem?_eq_getElem hashable.index_lt
      rw [committedInputs_eq_singleton found alone]
      simpa [TxInput.WireSized] using codeBound
  | false =>
      rw [committedInputs_eq _ _ _ _ alone, List.length_mapIdx]
      refine ⟨hashable.sized.inputs_length_lt, fun prepared preparedMem => ?_⟩
      obtain ⟨place, bound, rfl⟩ := List.mem_mapIdx.mp preparedMem
      exact Nat.lt_of_le_of_lt
        (unlocking_preparedInput_size_le index type scriptCode place _)
        codeBound

theorem committedOutputs_sized {tx : Transaction} {index : Nat}
    {type : HashType} {scriptCode : Script}
    (hashable : tx.Hashable index type scriptCode) :
    (tx.committedOutputs index type).length < 2 ^ 64 ∧
      ∀ output ∈ tx.committedOutputs index type, output.WireSized := by
  have outputsBound := hashable.sized.outputs_length_lt
  have outputsSized := hashable.sized.outputs_sized
  cases scope : type.outputs with
  | all =>
      simp only [committedOutputs, scope]
      exact ⟨outputsBound, outputsSized⟩
  | none => simp [committedOutputs, scope]
  | single =>
      have bound := hashable.output_lt scope
      rw [committedOutputs_eq_of_single scope
        (List.getElem?_eq_getElem bound)]
      constructor
      · simp only [List.length_append, List.length_replicate,
          List.length_singleton]
        omega
      · intro output outputMem
        rcases List.mem_append.mp outputMem with blank | signed
        · rw [List.eq_of_mem_replicate blank]
          exact Nat.two_pow_pos 64
        · rw [List.mem_singleton.mp signed]
          exact outputsSized _ (List.getElem_mem bound)

theorem committedCopy_wireSized {tx : Transaction} {index : Nat}
    {type : HashType} {scriptCode : Script}
    (hashable : tx.Hashable index type scriptCode) :
    (tx.committedCopy index type scriptCode).WireSized where
  inputs_length_lt := (committedInputs_sized hashable).1
  inputs_sized := (committedInputs_sized hashable).2
  outputs_length_lt := (committedOutputs_sized hashable).1
  outputs_sized := (committedOutputs_sized hashable).2

end Transaction

theorem HashType.code_injective {first second : HashType}
    (same : first.code = second.code) : first = second := by
  have decoded := ofCode_code first
  rw [same, ofCode_code second] at decoded
  exact (Except.ok.inj decoded).symm

/-- Words of a fixed width are told apart by their fields. -/
theorem littleEndian_toNat_injective {first second : UInt32}
    (same : littleEndian 4 first.toNat = littleEndian 4 second.toNat) :
    first = second := by
  have exact := readUInt32_exact.append_inj trivial trivial
    (congrArg (· ++ []) same)
  exact exact.1

namespace Transaction

/-- A preimage is the signed copy together with the hash type. -/
theorem signaturePreimage_eq_iff_copy {first second : Transaction}
    {firstIndex secondIndex : Nat} {firstType secondType : HashType}
    {firstCode secondCode : Script}
    (firstHashable : first.Hashable firstIndex firstType firstCode)
    (secondHashable : second.Hashable secondIndex secondType secondCode) :
    first.signaturePreimage firstIndex firstType firstCode =
        second.signaturePreimage secondIndex secondType secondCode ↔
      firstType = secondType ∧
        first.committedCopy firstIndex firstType firstCode =
          second.committedCopy secondIndex secondType secondCode := by
  constructor
  · intro same
    obtain ⟨copyEq, codeEq⟩ := read_exact.append_inj
      (committedCopy_wireSized firstHashable)
      (committedCopy_wireSized secondHashable) same
    exact ⟨HashType.code_injective (littleEndian_toNat_injective codeEq),
      copyEq⟩
  · rintro ⟨rfl, copyEq⟩
    rw [signaturePreimage, signaturePreimage, copyEq]

/-- Two hashed byte strings are equal exactly when the hash types and the script
codes are and the two signed inputs agree on everything that the hash type
commits to.  The indices are compared only where others' inputs are kept. -/
theorem signaturePreimage_eq_iff {first second : Transaction}
    {firstIndex secondIndex : Nat} {firstType secondType : HashType}
    {firstCode secondCode : Script}
    (firstHashable : first.Hashable firstIndex firstType firstCode)
    (secondHashable : second.Hashable secondIndex secondType secondCode)
    (sameIndex : firstType = secondType → firstType.anyoneCanPay = false →
      firstIndex = secondIndex) :
    first.signaturePreimage firstIndex firstType firstCode =
        second.signaturePreimage secondIndex secondType secondCode ↔
      firstType = secondType ∧ firstCode = secondCode ∧
        SameCommitment firstType first second firstIndex secondIndex := by
  rw [signaturePreimage_eq_iff_copy firstHashable secondHashable]
  refine and_congr_right fun typeEq => ?_
  subst typeEq
  simp only [committedCopy, Transaction.mk.injEq]
  rw [committedOutputs_eq_iff firstHashable.output_lt
    secondHashable.output_lt]
  cases alone : firstType.anyoneCanPay with
  | true =>
      rw [committedInputs_eq_iff_alone alone firstHashable.index_lt
        secondHashable.index_lt]
      constructor
      · rintro ⟨versionEq, ⟨codeEq, prevoutEq, sequenceEq⟩,
          ⟨outputsEq, outputEq⟩, lockTimeEq⟩
        refine ⟨codeEq, versionEq, lockTimeEq, prevoutEq, sequenceEq, ?_, ?_,
          outputsEq, outputEq⟩
        · simp [alone]
        · simp [alone]
      · rintro ⟨codeEq, same⟩
        exact ⟨same.version_eq, ⟨codeEq, same.prevout_eq, same.sequence_eq⟩,
          ⟨same.outputs_eq, same.output_eq⟩, same.lockTime_eq⟩
  | false =>
      obtain rfl := sameIndex rfl alone
      rw [committedInputs_eq_iff_shared alone firstHashable.index_lt
        secondHashable.index_lt]
      constructor
      · rintro ⟨versionEq, ⟨codeEq, sequenceEq, prevoutsEq, sequencesEq⟩,
          ⟨outputsEq, outputEq⟩, lockTimeEq⟩
        refine ⟨codeEq, versionEq, lockTimeEq, ?_, sequenceEq,
          fun _ => prevoutsEq, fun _ => sequencesEq, outputsEq, outputEq⟩
        rw [← List.getElem?_map, ← List.getElem?_map, prevoutsEq]
      · rintro ⟨codeEq, same⟩
        exact ⟨same.version_eq, ⟨codeEq, same.sequence_eq,
          same.prevouts_eq alone, same.sequences_eq alone⟩,
          ⟨same.outputs_eq, same.output_eq⟩, same.lockTime_eq⟩

/-- One input, once behind another input and once alone, each time with a
different unlocking script. -/
theorem signaturePreimage_eq_of_moved_input :
    let moved (unlocking : Script) : TxInput :=
      ⟨⟨missingOutputDigest, 1⟩, unlocking, 6⟩
    let first : Transaction :=
      ⟨2, [⟨⟨missingOutputDigest, 0⟩, ⟨[0x51]⟩, 5⟩, moved ⟨[0x52]⟩],
        [blankOutput], 9⟩
    let second : Transaction := ⟨2, [moved .empty], [blankOutput], 9⟩
    let type : HashType := ⟨.all, true⟩
    first.Hashable 1 type ⟨[0xac]⟩ ∧ second.Hashable 0 type ⟨[0xac]⟩ ∧
      first.signaturePreimage 1 type ⟨[0xac]⟩ =
        second.signaturePreimage 0 type ⟨[0xac]⟩ := by
  intro moved first second type
  have firstHashable : first.Hashable 1 type ⟨[0xac]⟩ := by decide
  have secondHashable : second.Hashable 0 type ⟨[0xac]⟩ := by decide
  refine ⟨firstHashable, secondHashable, ?_⟩
  refine (signaturePreimage_eq_iff firstHashable secondHashable
    (by decide)).mpr ⟨rfl, rfl, ?_⟩
  exact ⟨rfl, rfl, rfl, rfl, by decide, by decide, fun _ => rfl, by decide⟩

end Transaction

end CoinSpend
