import CoinSpend.Proofs.ObtainedSignatures

/-!
# Reading a compact signature with its recovery number

The fields are accepted if the recovery number is below four and both numbers
are scalars other than zero.  Otherwise the first of six checks that finds a
fault decides the error.  The range can be checked on the bytes, because fields
of one width are ordered as their numbers are.  Whether the second number was
negated shows in the bytes of the result, because no scalar but zero is its own
negative.
-/

namespace CoinSpend

open Secp256k1

/-! ## The order of fields -/

/-- Of two numbers with two digits, the first digits decide unless they are
equal. -/
theorem digits_lt_iff {weight high low otherHigh otherLow : Nat}
    (lowBound : low < weight) (otherLowBound : otherLow < weight) :
    high * weight + low < otherHigh * weight + otherLow ↔
      high < otherHigh ∨ high = otherHigh ∧ low < otherLow := by
  have apart {small large : Nat} (less : small < large) :
      small * weight + weight ≤ large * weight := by
    rw [← Nat.succ_mul]
    exact Nat.mul_le_mul_right weight less
  rcases Nat.lt_trichotomy high otherHigh with less | rfl | greater
  · have := apart less
    omega
  · omega
  · have := apart greater
    omega

/-- Byte strings of one length are in lexicographic order as their numbers
are. -/
theorem bytes_lt_iff {first second : Bytes}
    (sameLength : first.length = second.length) :
    first < second ↔ bigEndianValue first < bigEndianValue second := by
  induction first generalizing second with
  | nil =>
      rw [List.eq_nil_of_length_eq_zero sameLength.symm]
      exact iff_of_false (List.lt_irrefl _) (Nat.lt_irrefl _)
  | cons byte rest ih =>
      cases second with
      | nil => cases sameLength
      | cons otherByte otherRest =>
          have restLength : rest.length = otherRest.length :=
            Nat.succ.inj sameLength
          have restBound := bigEndianValue_lt rest
          have otherBound := bigEndianValue_lt otherRest
          rw [← restLength] at otherBound
          rw [List.cons_lt_cons_iff, ih restLength, bigEndianValue_cons,
            bigEndianValue_cons, ← restLength,
            digits_lt_iff restBound otherBound, UInt8.lt_iff_toNat_lt,
            UInt8.toNat_inj]

theorem all_zero_iff {bytes : Bytes} :
    bytes.all (· == 0) = true ↔ bigEndianValue bytes = 0 := by
  induction bytes with
  | nil => exact iff_of_true rfl rfl
  | cons byte rest ih =>
      have positive : 0 < 256 ^ rest.length := Nat.pow_pos (by decide)
      rw [List.all_cons, Bool.and_eq_true, ih, bigEndianValue_cons,
        Nat.add_eq_zero_iff, Nat.mul_eq_zero, beq_iff_eq, ← UInt8.toNat_inj,
        or_iff_left positive.ne']
      rfl

/-! ## Errors by the first fault -/

/-- The error of the first check that finds a fault. -/
def firstFault (checks : List (Bool × Error)) : Option Error :=
  (checks.find? Prod.fst).map Prod.snd

/-- A computation fails exactly if one of the checks finds a fault, with the
error of the first one that does. -/
def FailsBy {α : Type} (computation : Except Error α)
    (checks : List (Bool × Error)) : Prop :=
  ∀ error, computation = .error error ↔ firstFault checks = some error

namespace FailsBy

variable {α β : Type} {computation : Except Error α}
  {checks moreChecks : List (Bool × Error)}

theorem ok (value : α) : FailsBy (.ok value : Except Error α) [] := by
  intro error
  simp [firstFault]

theorem firstFault_of_ok {value : α} (failsBy : FailsBy computation checks)
    (succeeds : computation = .ok value) : firstFault checks = none := by
  refine Option.eq_none_iff_forall_ne_some.mpr fun error found => ?_
  cases succeeds.symm.trans ((failsBy error).mpr found)

theorem exists_ok_iff (failsBy : FailsBy computation checks) :
    (∃ value, computation = .ok value) ↔
      ∀ check ∈ checks, check.1 = false := by
  have passes : firstFault checks = none ↔
      ∀ check ∈ checks, check.1 = false := by simp [firstFault]
  rw [← passes]
  cases outcome : computation with
  | ok value =>
      exact iff_of_true ⟨value, rfl⟩ (failsBy.firstFault_of_ok outcome)
  | error error => simp [(failsBy error).mp outcome]

/-- A condition that is examined before the other checks. -/
theorem guarded {holds : Prop} [Decidable holds] {fault : Error}
    (rest : FailsBy computation checks) :
    FailsBy (if holds then computation else .error fault)
      ((decide (¬ holds), fault) :: checks) := by
  intro error
  by_cases passes : holds
  · rw [if_pos passes, rest error]
    simp [firstFault, passes]
  · simp [firstFault, passes]

theorem bind {next : α → Except Error β} (first : FailsBy computation checks)
    (second : ∀ value, computation = .ok value →
      FailsBy (next value) moreChecks) :
    FailsBy (computation >>= next) (checks ++ moreChecks) := by
  intro error
  have appended : firstFault (checks ++ moreChecks) =
      (firstFault checks).or (firstFault moreChecks) := by
    rw [firstFault, List.find?_append, Option.map_or]
    rfl
  rw [appended]
  cases outcome : computation with
  | error found =>
      rw [(first found).mp outcome, Option.some_or, Option.some.injEq]
      exact Except.error.injEq found error ▸ Iff.rfl
  | ok value =>
      rw [first.firstFault_of_ok outcome, Option.none_or]
      exact second value outcome error

end FailsBy

namespace Signature

/-- The checks on a number of a signature. -/
def scalarChecks (part : SignaturePart) (number : Nat) : List (Bool × Error) :=
  [(number = 0, .signaturePartZero part),
    (groupOrder ≤ number, .signaturePartTooLarge part)]

theorem checkedScalar_failsBy (part : SignaturePart) (number : Nat) :
    FailsBy (checkedScalar part number) (scalarChecks part number) := by
  intro error
  unfold checkedScalar scalarChecks firstFault
  split
  · rename_i zero
    simp [zero]
  · rename_i nonzero
    split
    · rename_i small
      simp [nonzero, small]
    · rename_i large
      simp [nonzero, Nat.not_lt.mp large]

theorem checkedRecoveryId_failsBy (number : UInt8) :
    FailsBy (checkedRecoveryId number)
      [(3 < number.toNat, .encoding (.recoveryId number))] := by
  intro error
  unfold checkedRecoveryId firstFault
  split
  · rename_i small
    have fits : ¬ 3 < number.toNat := by omega
    simp [fits]
  · rename_i large
    have exceeds : 3 < number.toNat := by omega
    simp [exceeds]

theorem ofNumbers_failsBy (r s : Nat) (recoveryId : Option (Fin 4)) :
    FailsBy (ofNumbers r s recoveryId)
      (scalarChecks .r r ++ scalarChecks .s s) := by
  refine (checkedScalar_failsBy .r r).bind fun first _ => ?_
  rw [← List.append_nil (scalarChecks .s s)]
  exact (checkedScalar_failsBy .s s).bind fun second _ => FailsBy.ok _

/-- The checks on a compact signature with a recovery number, in the order in
which they are made. -/
def compactChecks (bytes : Bytes) (number : UInt8) : List (Bool × Error) :=
  let r := bigEndianValue (bytes.take 32)
  let s := bigEndianValue (bytes.drop 32)
  [(3 < number.toNat, .encoding (.recoveryId number)),
    (bytes.length ≠ 64, .encoding (.compactSignatureLength bytes.length)),
    (r = 0, .signaturePartZero .r),
    (groupOrder ≤ r, .signaturePartTooLarge .r),
    (s = 0, .signaturePartZero .s),
    (groupOrder ≤ s, .signaturePartTooLarge .s)]

theorem ofCompactRecoverable_failsBy (bytes : Bytes) (number : UInt8) :
    FailsBy (ofCompactRecoverable bytes number)
      (compactChecks bytes number) :=
  (checkedRecoveryId_failsBy number).bind fun recoveryId _ =>
    (ofNumbers_failsBy _ _ (some recoveryId)).guarded

theorem exists_ofCompactRecoverable_iff {bytes : Bytes} {number : UInt8} :
    (∃ signature, ofCompactRecoverable bytes number = .ok signature) ↔
      let r := bigEndianValue (bytes.take 32)
      let s := bigEndianValue (bytes.drop 32)
      number.toNat ≤ 3 ∧ bytes.length = 64 ∧ 1 ≤ r ∧ r ≤ groupOrder - 1 ∧
        1 ≤ s ∧ s ≤ groupOrder - 1 := by
  have positive : 0 < groupOrder := by decide
  rw [(ofCompactRecoverable_failsBy bytes number).exists_ok_iff]
  simp only [compactChecks, List.forall_mem_cons, List.not_mem_nil,
    IsEmpty.forall_iff, implies_true, and_true, decide_eq_false_iff_not,
    not_lt, not_le, not_not, Nat.one_le_iff_ne_zero, ne_eq,
    Nat.le_sub_one_iff_lt positive]

/-! ## The two signatures of a pair of numbers -/

theorem checkedRecoveryId_flip (recoveryId : Fin 4) :
    checkedRecoveryId (UInt8.ofNat recoveryId.val ^^^ 1) =
      .ok (recoveryId ^^^ 1) := by
  revert recoveryId
  decide

theorem toNat_flip (recoveryId : Fin 4) :
    (UInt8.ofNat recoveryId.val ^^^ 1).toNat = (recoveryId ^^^ 1).val := by
  revert recoveryId
  decide

/-- The numbers of what is read. -/
theorem numbers_of_ofCompactRecoverable {bytes : Bytes} {number : UInt8}
    {signature : Signature}
    (made : ofCompactRecoverable bytes number = .ok signature) :
    let r := bigEndianValue (bytes.take 32)
    let s := bigEndianValue (bytes.drop 32)
    (signature.r.val, signature.s.val, signature.recoveryId.map Fin.val) =
      if s ≤ (groupOrder - 1) / 2 then (r, s, some number.toNat)
      else (r, groupOrder - s, some (number ^^^ 1).toNat) := by
  intro r s
  obtain ⟨recoveryId, checked, read⟩ := Error.bind_eq_ok_iff.mp made
  have numberEq := checkedRecoveryId_eq_ok_iff.mp checked
  rw [ofCompactFields, if_pos (length_of_ofCompactFields read),
    ofNumbers_eq_ok_iff] at read
  have low : signature.s.val ≤ (groupOrder - 1) / 2 := signature.s_low
  change r = _ ∧ (s = _ ∧ _ ∨ s = _ ∧ _) at read
  obtain ⟨rEq, ⟨sEq, idEq⟩ | ⟨sEq, idEq⟩⟩ := read
  · have value : number.toNat = recoveryId.val := by
      rw [numberEq]
      exact UInt8.toNat_ofNat_of_lt' (recoveryId.isLt.trans (by decide))
    rw [if_pos (sEq.trans_le low), rEq, sEq, ← idEq, value]
    rfl
  · have bound := signature.s.isLt
    have odd : groupOrder % 2 = 1 := by decide
    have numbered : signature.recoveryId = some (recoveryId ^^^ 1) := by
      rw [← flip_flip signature.recoveryId, ← idEq]
      rfl
    have sBack : groupOrder - s = signature.s.val := by omega
    rw [if_neg (by omega), rEq, sBack, numbered, numberEq, toNat_flip]
    rfl

/-- Both second numbers that are each other's negative give one signature. -/
theorem normalized_neg {r s : Scalar} (recoveryId : Option (Fin 4))
    (r_ne_zero : r ≠ 0) (s_ne_zero : s ≠ 0) :
    normalized r (-s) (recoveryId.map (· ^^^ 1)) r_ne_zero
        (neg_ne_zero s_ne_zero) =
      normalized r s recoveryId r_ne_zero s_ne_zero := by
  generalize made : normalized r s recoveryId r_ne_zero s_ne_zero = signature
  obtain ⟨rEq, ⟨sEq, idEq⟩ | ⟨sEq, idEq⟩⟩ := normalized_eq_iff.mp made
  · exact normalized_eq_iff.mpr
      ⟨rEq, .inr ⟨congrArg _ sEq, congrArg _ idEq⟩⟩
  · refine normalized_eq_iff.mpr ⟨rEq, .inl ⟨?_, ?_⟩⟩
    · rw [sEq, neg_neg_of_ne_zero signature.s_ne_zero]
    · rw [idEq, flip_flip]

theorem ofNumbers_negated {r s : Nat} (recoveryId : Option (Fin 4))
    (positive : 1 ≤ s) (bound : s ≤ groupOrder - 1) :
    ofNumbers r (groupOrder - s) (recoveryId.map (· ^^^ 1)) =
      ofNumbers r s recoveryId := by
  have someScalar : 0 < groupOrder := by decide
  let scalar : Scalar := ⟨s, by omega⟩
  have nonzero : scalar ≠ 0 := fun isZero =>
    Nat.one_le_iff_ne_zero.mp positive (congrArg Fin.val isZero)
  have negated : groupOrder - s = (-scalar).val :=
    (val_neg_of_ne_zero nonzero).symm
  rw [negated]
  change _ = ofNumbers r scalar.val recoveryId
  unfold ofNumbers
  cases checkedScalar .r r with
  | error error => rfl
  | ok first =>
      rw [checkedScalar_val nonzero, checkedScalar_val (neg_ne_zero nonzero)]
      exact congrArg Except.ok (normalized_neg recoveryId first.2 nonzero)

theorem ofCompactFields_fields (r s : Nat) (recoveryId : Option (Fin 4)) :
    ofCompactFields (bigEndian 32 r ++ bigEndian 32 s) recoveryId =
      ofNumbers (r % 256 ^ 32) (s % 256 ^ 32) recoveryId := by
  have whole : (bigEndian 32 r ++ bigEndian 32 s).length = 64 := by simp
  rw [ofCompactFields, if_pos whole,
    List.take_left' (bigEndian_length 32 r),
    List.drop_left' (bigEndian_length 32 r), bigEndianValue_bigEndian,
    bigEndianValue_bigEndian]

theorem ofCompactRecoverable_of_checked {bytes : Bytes} {number : UInt8}
    {recoveryId : Fin 4} (checked : checkedRecoveryId number = .ok recoveryId) :
    ofCompactRecoverable bytes number =
      ofCompactFields bytes (some recoveryId) := by
  rw [ofCompactRecoverable, checked]
  rfl

theorem ofCompactRecoverable_negated (r : Nat) {s : Nat} {number : UInt8}
    (small : number.toNat ≤ 3) (positive : 1 ≤ s)
    (bound : s ≤ groupOrder - 1) :
    ofCompactRecoverable (bigEndian 32 r ++ bigEndian 32 (groupOrder - s))
        (number ^^^ 1) =
      ofCompactRecoverable (bigEndian 32 r ++ bigEndian 32 s) number := by
  have fits : groupOrder < 256 ^ 32 := by decide
  have sFits : s < 256 ^ 32 := by omega
  have oppositeFits : groupOrder - s < 256 ^ 32 := by omega
  obtain ⟨recoveryId, checked⟩ : ∃ id, checkedRecoveryId number = .ok id :=
    ⟨⟨number.toNat, Nat.lt_succ_of_le small⟩, dif_pos _⟩
  have flipped := checkedRecoveryId_flip recoveryId
  rw [← checkedRecoveryId_eq_ok_iff.mp checked] at flipped
  rw [ofCompactRecoverable_of_checked checked,
    ofCompactRecoverable_of_checked flipped, ofCompactFields_fields,
    ofCompactFields_fields, Nat.mod_eq_of_lt sFits,
    Nat.mod_eq_of_lt oppositeFits]
  exact ofNumbers_negated (some recoveryId) positive bound

/-! ## Reading that compares bytes -/

/-- The range of a number, checked on its field. -/
def checkField (part : SignaturePart) (field : Bytes) : Except Error Unit :=
  if field.all (· == 0) then .error (.signaturePartZero part)
  else if field < bigEndian 32 groupOrder then .ok ()
  else .error (.signaturePartTooLarge part)

/-- Reading that checks the range on the bytes, and finds out by comparing bytes
whether the second number was negated. -/
def ofComparedBytes (bytes : Bytes) (number : UInt8) :
    Except Error Signature := do
  let recoveryId ← checkedRecoveryId number
  if bytes.length = 64 then do
    checkField .r (bytes.take 32)
    checkField .s (bytes.drop 32)
    let kept ← ofCompact bytes
    let shown := if kept.toCompact = bytes then recoveryId else recoveryId ^^^ 1
    return { kept with recoveryId := some shown }
  else throw (.encoding (.compactSignatureLength bytes.length))

theorem checkField_eq (part : SignaturePart) {field : Bytes}
    (width : field.length = 32) :
    checkField part field =
      (checkedScalar part (bigEndianValue field)).map fun _ => () := by
  have fits : groupOrder < 256 ^ 32 := by decide
  have orderBytes : bigEndianValue (bigEndian 32 groupOrder) = groupOrder :=
    ((eq_bigEndian_iff fits).mp rfl).2
  have below : field < bigEndian 32 groupOrder ↔
      bigEndianValue field < groupOrder := by
    rw [bytes_lt_iff (width.trans (bigEndian_length 32 _).symm), orderBytes]
  unfold checkField checkedScalar
  by_cases zero : bigEndianValue field = 0
  · rw [if_pos (all_zero_iff.mpr zero), dif_pos zero]
    rfl
  · rw [if_neg (mt all_zero_iff.mp zero), dif_neg zero]
    by_cases small : bigEndianValue field < groupOrder
    · rw [if_pos (below.mpr small), dif_pos small]
      rfl
    · rw [if_neg (mt below.mp small), dif_neg small]
      rfl

theorem toCompact_eq_iff {signature : Signature} {r s : Scalar} :
    signature.toCompact = bigEndian 32 r.val ++ bigEndian 32 s.val ↔
      signature.r = r ∧ signature.s = s := by
  have fields_inj {first second : Scalar}
      (same : bigEndian 32 first.val = bigEndian 32 second.val) :
      first = second := by
    have value := ((eq_bigEndian_iff (scalar_val_lt first)).mp rfl).2
    rw [same, ((eq_bigEndian_iff (scalar_val_lt second)).mp rfl).2] at value
    exact Fin.ext value.symm
  constructor
  · intro same
    obtain ⟨front, back⟩ := List.append_inj same (by simp)
    exact ⟨fields_inj front, fields_inj back⟩
  · rintro ⟨rfl, rfl⟩
    rfl

/-- The number is written as it was read exactly if it was not negated. -/
theorem toCompact_normalized_eq_iff {r s : Scalar}
    {recoveryId : Option (Fin 4)} (r_ne_zero : r ≠ 0) (s_ne_zero : s ≠ 0) :
    (normalized r s recoveryId r_ne_zero s_ne_zero).toCompact =
        bigEndian 32 r.val ++ bigEndian 32 s.val ↔
      s.val ≤ halfOrder := by
  rw [toCompact_eq_iff, ← Der.encodePair_inj]
  exact toDer_normalized_eq_iff r_ne_zero s_ne_zero

theorem normalized_some_eq {r s : Scalar} (recoveryId : Fin 4)
    (r_ne_zero : r ≠ 0) (s_ne_zero : s ≠ 0) :
    normalized r s (some recoveryId) r_ne_zero s_ne_zero =
      { normalized r s none r_ne_zero s_ne_zero with
        recoveryId := some
          (if s.val ≤ halfOrder then recoveryId else recoveryId ^^^ 1) } := by
  unfold normalized
  by_cases low : s.val ≤ halfOrder
  · rw [dif_pos low, dif_pos low, if_pos low]
  · rw [dif_neg low, dif_neg low, if_neg low]
    rfl

theorem ofComparedBytes_eq (bytes : Bytes) (number : UInt8) :
    ofComparedBytes bytes number = ofCompactRecoverable bytes number := by
  unfold ofComparedBytes ofCompactRecoverable
  cases checkedRecoveryId number with
  | error error => rfl
  | ok recoveryId =>
      by_cases whole : bytes.length = 64
      · have frontWidth : (bytes.take 32).length = 32 := by simp [whole]
        have backWidth : (bytes.drop 32).length = 32 := by simp [whole]
        simp only [ofCompact, ofCompactFields, if_pos whole,
          checkField_eq _ frontWidth, checkField_eq _ backWidth]
        cases checkedR :
            checkedScalar .r (bigEndianValue (bytes.take 32)) with
        | error error =>
            simp only [ofNumbers, checkedR]
            rfl
        | ok first =>
            cases checkedS :
                checkedScalar .s (bigEndianValue (bytes.drop 32)) with
            | error error =>
                simp only [ofNumbers, checkedR, checkedS]
                rfl
            | ok second =>
                obtain ⟨r, rNonzero⟩ := first
                obtain ⟨s, sNonzero⟩ := second
                obtain ⟨rEq, -⟩ := checkedScalar_eq_ok checkedR
                obtain ⟨sEq, -⟩ := checkedScalar_eq_ok checkedS
                have bytesEq := (eq_fields_iff (scalar_val_lt r)
                  (scalar_val_lt s)).mpr ⟨whole, rEq, sEq⟩
                rw [rEq, sEq]
                simp only [ofNumbers_eq_normalized rNonzero sNonzero, bytesEq]
                refine congrArg Except.ok ?_
                simp only [normalized_some_eq recoveryId,
                  toCompact_normalized_eq_iff rNonzero sNonzero]
      · simp only [ofCompactFields, if_neg whole]
        rfl

/-! ## Reading what was written -/

theorem ofCompactRecoverable_again {bytes : Bytes} {number : UInt8}
    {signature : Signature}
    (made : ofCompactRecoverable bytes number = .ok signature) :
    ∃ recoveryId, signature.recoveryId = some recoveryId ∧
      ofCompactRecoverable signature.toCompact (UInt8.ofNat recoveryId.val) =
        .ok signature := by
  obtain ⟨first, -, read⟩ := Error.bind_eq_ok_iff.mp made
  obtain ⟨recoveryId, numbered⟩ : ∃ id, signature.recoveryId = some id := by
    rcases ofCompactFields_eq_ok_iff.mp read with ⟨-, kept⟩ | ⟨-, flipped⟩
    · exact ⟨first, kept.symm⟩
    · obtain ⟨recoveryId, numbered, -⟩ := Option.map_eq_some_iff.mp flipped.symm
      exact ⟨recoveryId, numbered⟩
  refine ⟨recoveryId, numbered, ?_⟩
  rw [ofCompactRecoverable_toCompact, ← numbered]

theorem ofCompact_again {bytes : Bytes} {signature : Signature}
    (made : ofCompact bytes = .ok signature) :
    ofCompact signature.toCompact = .ok signature := by
  have unnumbered : none = signature.recoveryId := by
    rcases ofCompactFields_eq_ok_iff.mp made with ⟨-, kept⟩ | ⟨-, flipped⟩
    · exact kept
    · exact (Option.map_eq_none_iff.mp flipped.symm).symm
  rw [ofCompact_toCompact, unnumbered]

/-- Two fields are read as a signature with a recovery number exactly if they
hold scalars other than zero.  The second number and the recovery number then
stay as they are or are both turned round.  Otherwise the first of six checks to
find a fault gives the error.  The same is read if the range is checked on the
bytes, from the negated numbers, and from what was written. -/
theorem ofCompactRecoverable_canonical :
    (∀ bytes number,
      let r := bigEndianValue (bytes.take 32)
      let s := bigEndianValue (bytes.drop 32)
      ((∃ signature, ofCompactRecoverable bytes number = .ok signature) ↔
        number.toNat ≤ 3 ∧ bytes.length = 64 ∧ 1 ≤ r ∧ r ≤ groupOrder - 1 ∧
          1 ≤ s ∧ s ≤ groupOrder - 1) ∧
      (∀ signature, ofCompactRecoverable bytes number = .ok signature →
        (signature.r.val, signature.s.val, signature.recoveryId.map Fin.val) =
          if s ≤ (groupOrder - 1) / 2 then (r, s, some number.toNat)
          else (r, groupOrder - s, some (number ^^^ 1).toNat)) ∧
      (∀ error, ofCompactRecoverable bytes number = .error error ↔
        firstFault (compactChecks bytes number) = some error) ∧
      ofComparedBytes bytes number = ofCompactRecoverable bytes number) ∧
    (∀ r s (number : UInt8), number.toNat ≤ 3 → 1 ≤ s → s ≤ groupOrder - 1 →
      ofCompactRecoverable (bigEndian 32 r ++ bigEndian 32 (groupOrder - s))
          (number ^^^ 1) =
        ofCompactRecoverable (bigEndian 32 r ++ bigEndian 32 s) number) ∧
    (∀ bytes number signature,
      ofCompactRecoverable bytes number = .ok signature →
        ∃ recoveryId, signature.recoveryId = some recoveryId ∧
          ofCompactRecoverable signature.toCompact
              (UInt8.ofNat recoveryId.val) = .ok signature) ∧
    ∀ bytes signature, ofCompact bytes = .ok signature →
      ofCompact signature.toCompact = .ok signature :=
  ⟨fun bytes number => ⟨exists_ofCompactRecoverable_iff,
      fun _ => numbers_of_ofCompactRecoverable,
      ofCompactRecoverable_failsBy bytes number,
      ofComparedBytes_eq bytes number⟩,
    fun r _ _ => ofCompactRecoverable_negated r,
    fun _ _ _ => ofCompactRecoverable_again, fun _ _ => ofCompact_again⟩

/-- A second number above half the order, and two inputs with two faults
each. -/
theorem ofCompactRecoverable_canonical_of_high_number :
    let fields (s : Nat) := bigEndian 32 1 ++ bigEndian 32 s
    let signature : Signature :=
      ⟨1, 2, some 3, by decide, by decide, by decide⟩
    ofCompactRecoverable (fields (groupOrder - 2)) 2 = .ok signature ∧
      ofCompactRecoverable (fields 2) 3 = .ok signature ∧
      ofCompactRecoverable signature.toCompact 3 = .ok signature ∧
      ofCompactRecoverable [] 4 = .error (.encoding (.recoveryId 4)) ∧
      ofCompactRecoverable (bigEndian 64 groupOrder) 0 =
        .error (.signaturePartZero .r) := by
  intro fields signature
  obtain ⟨reads, twins, again, -⟩ := ofCompactRecoverable_canonical
  have high : ofCompactRecoverable (fields (groupOrder - 2)) 2 =
      .ok signature := by decide
  have twin := twins 1 (groupOrder - 2) 2 (by decide) (by decide) (by decide)
  have back : groupOrder - (groupOrder - 2) = 2 := by decide
  rw [back] at twin
  obtain ⟨recoveryId, numbered, same⟩ := again _ _ _ high
  cases numbered
  exact ⟨high, twin.trans high, same, ((reads [] 4).2.2.1 _).mpr rfl,
    ((reads (bigEndian 64 groupOrder) 0).2.2.1 _).mpr (by decide)⟩

end Signature

end CoinSpend
