import CoinSpend.Proofs.DerForm

/-!
# Which numbers make a signature

A signature is made from its own two numbers, and also from the first one and
the order less the second, because the second is brought into the lower half.
The other way round the recovery number has the opposite parity.  Nothing else
makes it.
-/

namespace CoinSpend

open Secp256k1

namespace Signature

theorem flip_flip (recoveryId : Option (Fin 4)) :
    (recoveryId.map (· ^^^ 1)).map (· ^^^ 1) = recoveryId := by
  revert recoveryId
  decide

theorem neg_not_low {scalar : Scalar} (nonzero : scalar ≠ 0)
    (low : scalar.val ≤ halfOrder) : ¬ (-scalar).val ≤ halfOrder := by
  rw [val_neg_of_ne_zero nonzero]
  have odd : groupOrder = 2 * halfOrder + 1 := by decide
  omega

theorem neg_neg_of_ne_zero {scalar : Scalar} (nonzero : scalar ≠ 0) :
    - -scalar = scalar := by
  apply Fin.ext
  have bound := scalar.isLt
  rw [val_neg_of_ne_zero (neg_ne_zero nonzero), val_neg_of_ne_zero nonzero]
  omega

theorem normalized_eq_iff {r s : Scalar} {recoveryId : Option (Fin 4)}
    {r_ne_zero : r ≠ 0} {s_ne_zero : s ≠ 0} {signature : Signature} :
    normalized r s recoveryId r_ne_zero s_ne_zero = signature ↔
      r = signature.r ∧
        (s = signature.s ∧ recoveryId = signature.recoveryId ∨
          s = -signature.s ∧
            recoveryId = signature.recoveryId.map (· ^^^ 1)) := by
  unfold normalized
  by_cases low : s.val ≤ halfOrder
  · rw [dif_pos low, Signature.ext_iff]
    refine and_congr_right fun _ => (or_iff_left ?_).symm
    rintro ⟨rfl, -⟩
    exact neg_not_low signature.s_ne_zero signature.s_low low
  · rw [dif_neg low, Signature.ext_iff]
    refine and_congr_right fun _ => ?_
    rw [or_iff_right]
    · constructor
      · rintro ⟨same, numbered⟩
        dsimp only at same numbered
        rw [← same, ← numbered, flip_flip, neg_neg_of_ne_zero s_ne_zero]
        exact ⟨rfl, rfl⟩
      · rintro ⟨rfl, rfl⟩
        exact ⟨neg_neg_of_ne_zero signature.s_ne_zero, flip_flip _⟩
    · rintro ⟨rfl, -⟩
      exact low signature.s_low

theorem ofNumbers_eq_ok_iff {r s : Nat} {recoveryId : Option (Fin 4)}
    {signature : Signature} :
    ofNumbers r s recoveryId = .ok signature ↔
      r = signature.r.val ∧
        (s = signature.s.val ∧ recoveryId = signature.recoveryId ∨
          s = groupOrder - signature.s.val ∧
            recoveryId = signature.recoveryId.map (· ^^^ 1)) := by
  rw [← val_neg_of_ne_zero signature.s_ne_zero]
  constructor
  · intro made
    obtain ⟨first, checkedFirst, rest⟩ := Error.bind_eq_ok_iff.mp made
    obtain ⟨second, checkedSecond, returned⟩ := Error.bind_eq_ok_iff.mp rest
    obtain ⟨rfl, -⟩ := checkedScalar_eq_ok checkedFirst
    obtain ⟨rfl, -⟩ := checkedScalar_eq_ok checkedSecond
    simpa only [Fin.val_inj] using
      normalized_eq_iff.mp (Except.ok.inj returned)
  · rintro ⟨rfl, ⟨rfl, rfl⟩ | ⟨rfl, rfl⟩⟩
    · rw [ofNumbers_eq_normalized signature.r_ne_zero signature.s_ne_zero]
      exact congrArg Except.ok
        (normalized_eq_iff.mpr ⟨rfl, .inl ⟨rfl, rfl⟩⟩)
    · rw [ofNumbers_eq_normalized signature.r_ne_zero
        (neg_ne_zero signature.s_ne_zero)]
      exact congrArg Except.ok
        (normalized_eq_iff.mpr ⟨rfl, .inr ⟨rfl, rfl⟩⟩)

theorem eq_fields_iff {bytes : Bytes} {r s : Nat} (rFits : r < 256 ^ 32)
    (sFits : s < 256 ^ 32) :
    bytes = bigEndian 32 r ++ bigEndian 32 s ↔
      bytes.length = 64 ∧ bigEndianValue (bytes.take 32) = r ∧
        bigEndianValue (bytes.drop 32) = s := by
  constructor
  · rintro rfl
    refine ⟨by simp, ?_, ?_⟩
    · rw [List.take_left' (bigEndian_length 32 r)]
      exact ((eq_bigEndian_iff rFits).mp rfl).2
    · rw [List.drop_left' (bigEndian_length 32 r)]
      exact ((eq_bigEndian_iff sFits).mp rfl).2
  · rintro ⟨length, rValue, sValue⟩
    have front := (eq_bigEndian_iff rFits).mpr ⟨by simp [length], rValue⟩
    have back := (eq_bigEndian_iff sFits).mpr ⟨by simp [length], sValue⟩
    rw [← front, ← back, List.take_append_drop]

theorem length_of_ofCompactFields {bytes : Bytes}
    {recoveryId : Option (Fin 4)} {signature : Signature}
    (made : ofCompactFields bytes recoveryId = .ok signature) :
    bytes.length = 64 := by
  unfold ofCompactFields at made
  split at made
  · assumption
  · contradiction

/-- The fields of a signature, and those with the second number negated, are all
that it is read from. -/
theorem ofCompactFields_eq_ok_iff {bytes : Bytes}
    {recoveryId : Option (Fin 4)} {signature : Signature} :
    ofCompactFields bytes recoveryId = .ok signature ↔
      bytes = bigEndian 32 signature.r.val ++ bigEndian 32 signature.s.val ∧
          recoveryId = signature.recoveryId ∨
        bytes = bigEndian 32 signature.r.val ++
            bigEndian 32 (groupOrder - signature.s.val) ∧
          recoveryId = signature.recoveryId.map (· ^^^ 1) := by
  have fits (number : Nat) (bound : number ≤ groupOrder) :
      number < 256 ^ 32 := Nat.lt_of_le_of_lt bound (by decide)
  have rFits := fits signature.r.val signature.r.isLt.le
  have sFits := fits signature.s.val signature.s.isLt.le
  have oppositeFits := fits (groupOrder - signature.s.val)
    (Nat.sub_le groupOrder signature.s.val)
  rw [eq_fields_iff rFits sFits, eq_fields_iff rFits oppositeFits]
  unfold ofCompactFields
  split
  · rename_i whole
    rw [ofNumbers_eq_ok_iff]
    simp only [whole, true_and, and_assoc, and_or_left]
  · rename_i otherLength
    simp only [otherLength, false_and, or_self, reduceCtorEq]

end Signature

end CoinSpend
