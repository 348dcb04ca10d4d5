import CoinSpend.Signature
import CoinSpend.Proofs.DerGrammar

/-!
# Signatures survive their two forms

The compact form has a field of a fixed width for each scalar.  In the DER form,
the content of an integer is read back as the number it was made of, and it is
never longer than the lengths of one byte reach.
-/

namespace CoinSpend

/-- A scalar fits in a field of the compact form. -/
theorem Secp256k1.scalar_val_lt (scalar : Secp256k1.Scalar) :
    scalar.val < 256 ^ 32 :=
  scalar.isLt.trans (by decide)

namespace Der

theorem length_integerContent_le_of_inRange {number : Nat}
    (inRange : number < Secp256k1.groupOrder) :
    (integerContent number).length ≤ 33 := by
  have fits : 2 * Secp256k1.groupOrder < 256 ^ 33 := by decide
  exact length_integerContent_le (by omega) (by decide)

theorem scalarNumber_integerContent {number : Nat}
    (inRange : number < Secp256k1.groupOrder) :
    scalarNumber (integerContent number) = number := by
  have inside : ¬ (0x80 ≤ (integerContent number).headD 0 ∨
      Secp256k1.groupOrder ≤ number) := by
    rw [not_or, UInt8.not_le, Nat.not_le]
    exact ⟨headD_integerContent_lt number, inRange⟩
  unfold scalarNumber
  rw [bigEndianValue_integerContent]
  exact if_neg inside

theorem length_encodeInteger (number : Nat) :
    (encodeInteger number).length = (integerContent number).length + 2 := by
  simp [encodeInteger]

theorem encodePair_eq_sequenceBytes {first second : Nat}
    (firstInRange : first < Secp256k1.groupOrder)
    (secondInRange : second < Secp256k1.groupOrder) :
    encodePair first second =
      sequenceBytes (integerContent first) (integerContent second) := by
  have firstShort := length_integerContent_le_of_inRange firstInRange
  have secondShort := length_integerContent_le_of_inRange secondInRange
  rw [sequenceBytes_of_short (by omega)]
  simp only [encodePair, encodeInteger, List.cons_append, List.length_append,
    List.length_cons]
  congr 3

theorem decodePair?_encodePair {first second : Nat}
    (firstInRange : first < Secp256k1.groupOrder)
    (secondInRange : second < Secp256k1.groupOrder) :
    decodePair? (encodePair first second) = some (first, second) := by
  refine decodePair?_eq_some_iff.mpr ⟨_, _,
    minimalContent_integerContent first, minimalContent_integerContent second,
    ?_, encodePair_eq_sequenceBytes firstInRange secondInRange, ?_⟩
  · have firstShort := length_integerContent_le_of_inRange firstInRange
    have secondShort := length_integerContent_le_of_inRange secondInRange
    rw [length_integers_of_short (by omega)]
    exact lt_lengthBound_of_short (by omega)
  · rw [scalarNumber_integerContent firstInRange,
      scalarNumber_integerContent secondInRange]

theorem eq_integerContent_of_scalarNumber {content : Bytes} {number : Nat}
    (minimal : minimalContent content = true)
    (scalar : scalarNumber content = number) (nonzero : number ≠ 0) :
    content = integerContent number ∧ number < Secp256k1.groupOrder := by
  unfold scalarNumber at scalar
  simp only at scalar
  split at scalar
  · exact absurd scalar.symm nonzero
  · rename_i inside
    rw [not_or, UInt8.not_le, Nat.not_le] at inside
    obtain ⟨low, inRange⟩ := inside
    subst scalar
    exact ⟨(integerContent_of_minimal minimal low).symm, inRange⟩

/-- Two numbers that are both read as not zero leave no choice of how they are
written. -/
theorem eq_encodePair_of_decodePair? {bytes : Bytes} {first second : Nat}
    (decoded : decodePair? bytes = some (first, second))
    (firstNonzero : first ≠ 0) (secondNonzero : second ≠ 0) :
    bytes = encodePair first second ∧ first < Secp256k1.groupOrder ∧
      second < Secp256k1.groupOrder := by
  obtain ⟨firstContent, secondContent, firstMinimal, secondMinimal, -, rfl,
    numbers⟩ := decodePair?_eq_some_iff.mp decoded
  obtain ⟨firstNumber, secondNumber⟩ := Prod.mk.inj numbers
  obtain ⟨rfl, firstInRange⟩ := eq_integerContent_of_scalarNumber firstMinimal
    firstNumber.symm firstNonzero
  obtain ⟨rfl, secondInRange⟩ := eq_integerContent_of_scalarNumber
    secondMinimal secondNumber.symm secondNonzero
  exact ⟨(encodePair_eq_sequenceBytes firstInRange secondInRange).symm,
    firstInRange, secondInRange⟩

theorem length_encodePair (first second : Nat) :
    (encodePair first second).length =
      (integerContent first).length + (integerContent second).length + 6 := by
  simp [encodePair, length_encodeInteger]
  omega

end Der

open Secp256k1

namespace Signature

theorem checkedScalar_val {scalar : Scalar} (nonzero : scalar ≠ 0)
    (part : SignaturePart) :
    checkedScalar part scalar.val = .ok ⟨scalar, nonzero⟩ := by
  have valueNonzero : scalar.val ≠ 0 := fun isZero => nonzero (Fin.ext isZero)
  unfold checkedScalar
  rw [dif_neg valueNonzero, dif_pos scalar.isLt]

theorem ofNumbers_eq_normalized {r s : Scalar} (r_ne_zero : r ≠ 0)
    (s_ne_zero : s ≠ 0) (recoveryId : Option (Fin 4)) :
    ofNumbers r.val s.val recoveryId =
      .ok (normalized r s recoveryId r_ne_zero s_ne_zero) := by
  unfold ofNumbers
  rw [checkedScalar_val r_ne_zero, checkedScalar_val s_ne_zero]
  rfl

theorem ofNumbers_val (signature : Signature) (recoveryId : Option (Fin 4)) :
    ofNumbers signature.r.val signature.s.val recoveryId =
      .ok { signature with recoveryId } := by
  rw [ofNumbers_eq_normalized signature.r_ne_zero signature.s_ne_zero]
  unfold normalized
  rw [dif_pos signature.s_low]

theorem ofCompactFields_toCompact (signature : Signature)
    (recoveryId : Option (Fin 4)) :
    ofCompactFields signature.toCompact recoveryId =
      .ok { signature with recoveryId } := by
  have front : signature.toCompact.take 32 = bigEndian 32 signature.r.val :=
    List.take_left' (bigEndian_length _ _)
  have back : signature.toCompact.drop 32 = bigEndian 32 signature.s.val :=
    List.drop_left' (bigEndian_length _ _)
  have whole : signature.toCompact.length = 64 := by simp [toCompact]
  unfold ofCompactFields
  rw [if_pos whole, front, back, bigEndianValue_bigEndian,
    bigEndianValue_bigEndian, Nat.mod_eq_of_lt (scalar_val_lt _),
    Nat.mod_eq_of_lt (scalar_val_lt _), ofNumbers_val]

theorem ofDer_toDer (signature : Signature) :
    ofDer signature.toDer = .ok { signature with recoveryId := none } := by
  unfold ofDer toDer
  rw [Der.decodePair?_encodePair signature.r.isLt signature.s.isLt]
  exact signature.ofNumbers_val none

theorem checkedScalar_eq_ok {part : SignaturePart} {number : Nat}
    {scalar : { scalar : Scalar // scalar ≠ 0 }}
    (checked : checkedScalar part number = .ok scalar) :
    number = scalar.val.val ∧ number ≠ 0 := by
  unfold checkedScalar at checked
  split at checked
  · contradiction
  · rename_i nonzero
    split at checked
    · cases checked
      exact ⟨rfl, nonzero⟩
    · contradiction

/-- Whatever is accepted is the DER form of two non-zero scalars, of which the
second is then brought into the lower half. -/
theorem ofDer_eq_ok {bytes : Bytes} {signature : Signature}
    (accepted : ofDer bytes = .ok signature) :
    ∃ (r s : Scalar) (r_ne_zero : r ≠ 0) (s_ne_zero : s ≠ 0),
      bytes = Der.encodePair r.val s.val ∧
        signature = normalized r s none r_ne_zero s_ne_zero := by
  unfold ofDer at accepted
  cases decoded : Der.decodePair? bytes with
  | none =>
      rw [decoded] at accepted
      contradiction
  | some numbers =>
      obtain ⟨first, second⟩ := numbers
      rw [decoded] at accepted
      obtain ⟨r, checkedR, rest⟩ := Error.bind_eq_ok_iff.mp accepted
      obtain ⟨s, checkedS, returned⟩ := Error.bind_eq_ok_iff.mp rest
      obtain ⟨rfl, rNonzero⟩ := checkedScalar_eq_ok checkedR
      obtain ⟨rfl, sNonzero⟩ := checkedScalar_eq_ok checkedS
      obtain ⟨bytesEq, -, -⟩ :=
        Der.eq_encodePair_of_decodePair? decoded rNonzero sNonzero
      refine ⟨r.val, s.val, r.property, s.property, bytesEq, ?_⟩
      exact (Except.ok.inj returned).symm

theorem length_le_of_ofDer {bytes : Bytes} {signature : Signature}
    (accepted : ofDer bytes = .ok signature) : bytes.length ≤ 72 := by
  obtain ⟨r, s, -, -, rfl, -⟩ := ofDer_eq_ok accepted
  have rShort := Der.length_integerContent_le_of_inRange r.isLt
  have sShort := Der.length_integerContent_le_of_inRange s.isLt
  rw [Der.length_encodePair]
  omega

theorem length_toDer_le (signature : Signature) :
    signature.toDer.length ≤ 71 := by
  have sBound := signature.s_low
  have sFits : 2 * halfOrder < 256 ^ 32 := by decide
  have rShort := Der.length_integerContent_le_of_inRange signature.r.isLt
  have sShort : (Der.integerContent signature.s.val).length ≤ 32 :=
    Der.length_integerContent_le (by omega) (by decide)
  unfold toDer
  rw [Der.length_encodePair]
  omega

end Signature

end CoinSpend
