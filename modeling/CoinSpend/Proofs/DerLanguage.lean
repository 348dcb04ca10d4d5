import CoinSpend.Proofs.SignatureFields

/-!
# The byte strings that are DER signatures

Every byte string is either no sequence of two integers at all, or one of exactly
two numbers.  It is a signature if both are non-zero scalars, and then its lengths
all fit into one byte.  A number out of range is reported as such, the first one
before the second, and everything else as malformed.
-/

namespace CoinSpend

open Secp256k1

/-- The numbers of non-zero scalars. -/
def IsScalarNumber (number : Int) : Prop :=
  1 ≤ number ∧ number ≤ groupOrder - 1

instance (number : Int) : Decidable (IsScalarNumber number) :=
  inferInstanceAs (Decidable (_ ∧ _))

theorem isScalarNumber_val {scalar : Scalar} (nonzero : scalar ≠ 0) :
    IsScalarNumber scalar.val := by
  have positive : scalar.val ≠ 0 := fun isZero => nonzero (Fin.ext isZero)
  have bound := scalar.isLt
  unfold IsScalarNumber
  omega

theorem exists_scalar_of_isScalarNumber {number : Int}
    (inRange : IsScalarNumber number) :
    ∃ scalar : Scalar, scalar ≠ 0 ∧ number = scalar.val := by
  obtain ⟨positive, bound⟩ := inRange
  obtain ⟨value, rfl⟩ := Int.eq_ofNat_of_zero_le (by omega : 0 ≤ number)
  refine ⟨⟨value, by omega⟩, fun isZero => ?_, rfl⟩
  have zero : value = 0 := congrArg Fin.val isZero
  omega

namespace Der

/-- Whether a byte string is a sequence of two integers, each with its shortest
content. -/
def IsPair (r s : Int) (bytes : Bytes) : Prop :=
  ∃ first second, IsContent r first ∧ IsContent s second ∧
    (integerBytes first ++ integerBytes second).length < lengthBound ∧
    bytes = sequenceBytes first second

/-- Whether a byte string is such a sequence with every length in one byte. -/
def IsShortPair (r s : Int) (bytes : Bytes) : Prop :=
  ∃ first second, IsContent r first ∧ IsContent s second ∧
    first.length + second.length + 4 < 0x80 ∧
    bytes = 0x30 :: UInt8.ofNat (first.length + second.length + 4) ::
      0x02 :: UInt8.ofNat first.length :: (first ++
        0x02 :: UInt8.ofNat second.length :: second)

theorem IsShortPair.isPair {r s : Int} {bytes : Bytes}
    (pair : IsShortPair r s bytes) : IsPair r s bytes := by
  obtain ⟨first, second, firstContent, secondContent, short, rfl⟩ := pair
  refine ⟨first, second, firstContent, secondContent, ?_,
    (sequenceBytes_of_short short).symm⟩
  rw [length_integers_of_short short]
  exact lt_lengthBound_of_short short

/-- Two scalars have one encoding. -/
theorem isShortPair_iff {r s : Scalar} {bytes : Bytes} :
    IsShortPair r.val s.val bytes ↔ bytes = encodePair r.val s.val := by
  have rShort := length_integerContent_le_of_inRange r.isLt
  have sShort := length_integerContent_le_of_inRange s.isLt
  rw [encodePair_eq_sequenceBytes r.isLt s.isLt,
    sequenceBytes_of_short (by omega)]
  unfold IsShortPair
  simp only [isContent_natCast_iff]
  constructor
  · rintro ⟨_, _, rfl, rfl, -, rfl⟩
    rfl
  · rintro rfl
    exact ⟨_, _, rfl, rfl, by omega, rfl⟩

/-- What a number is read as: zero stands for all that are out of range. -/
def readNumber (number : Int) : Nat :=
  if IsScalarNumber number then number.toNat else 0

theorem scalarNumber_eq_readNumber {number : Int} {content : Bytes}
    (isContent : IsContent number content) :
    scalarNumber content = readNumber number := by
  obtain ⟨-, rfl, -⟩ := isContent
  have below := bigEndianValue_lt_cast content
  have order : (0 : Int) < groupOrder := by decide
  unfold scalarNumber readNumber signedValue
  by_cases negative : 0x80 ≤ content.headD 0
  · have outside : ¬ IsScalarNumber
        (bigEndianValue content - 256 ^ content.length) := by
      rintro ⟨positive, -⟩
      omega
    rw [if_pos negative, if_pos (.inl negative), if_neg outside]
  · rw [if_neg negative]
    by_cases large : groupOrder ≤ bigEndianValue content
    · have outside : ¬ IsScalarNumber (bigEndianValue content) := by
        rintro ⟨-, bound⟩
        omega
      rw [if_pos (.inr large), if_neg outside]
    · rw [if_neg (not_or.mpr ⟨negative, large⟩), Int.toNat_natCast]
      split
      · rfl
      · rename_i outside
        unfold IsScalarNumber at outside
        omega

theorem decodePair?_eq_some_iff_isPair {bytes : Bytes} {numbers : Nat × Nat} :
    decodePair? bytes = some numbers ↔
      ∃ r s, IsPair r s bytes ∧ numbers = (readNumber r, readNumber s) := by
  rw [decodePair?_eq_some_iff]
  constructor
  · rintro ⟨first, second, firstMinimal, secondMinimal, bound, rfl, rfl⟩
    have firstContent := isContent_iff.mpr ⟨firstMinimal, rfl⟩
    have secondContent := isContent_iff.mpr ⟨secondMinimal, rfl⟩
    refine ⟨_, _, ⟨first, second, firstContent, secondContent, bound, rfl⟩, ?_⟩
    rw [scalarNumber_eq_readNumber firstContent,
      scalarNumber_eq_readNumber secondContent]
  · rintro ⟨r, s, ⟨first, second, firstContent, secondContent, bound, rfl⟩, rfl⟩
    refine ⟨first, second, (isContent_iff.mp firstContent).1,
      (isContent_iff.mp secondContent).1, bound, rfl, ?_⟩
    rw [scalarNumber_eq_readNumber firstContent,
      scalarNumber_eq_readNumber secondContent]

theorem encodePair_inj {r s otherR otherS : Scalar} :
    encodePair r.val s.val = encodePair otherR.val otherS.val ↔
      r = otherR ∧ s = otherS := by
  constructor
  · intro same
    have decoded := decodePair?_encodePair r.isLt s.isLt
    rw [same, decodePair?_encodePair otherR.isLt otherS.isLt,
      Option.some.injEq, Prod.mk.injEq] at decoded
    exact ⟨Fin.ext decoded.1.symm, Fin.ext decoded.2.symm⟩
  · rintro ⟨rfl, rfl⟩
    rfl

end Der

namespace Signature

theorem val_s_normalized {r s : Scalar} {recoveryId : Option (Fin 4)}
    (r_ne_zero : r ≠ 0) (s_ne_zero : s ≠ 0) :
    ((normalized r s recoveryId r_ne_zero s_ne_zero).s.val : Int) =
      min (s.val : Int) (groupOrder - s.val) := by
  have bound := s.isLt
  have odd : groupOrder = 2 * halfOrder + 1 := by decide
  unfold normalized
  split
  · dsimp only
    omega
  · dsimp only
    rw [val_neg_of_ne_zero s_ne_zero]
    omega

theorem r_normalized {r s : Scalar} {recoveryId : Option (Fin 4)}
    (r_ne_zero : r ≠ 0) (s_ne_zero : s ≠ 0) :
    (normalized r s recoveryId r_ne_zero s_ne_zero).r = r := by
  unfold normalized
  split <;> rfl

/-- Writing gives back what was read only if nothing had to be negated. -/
theorem toDer_normalized_eq_iff {r s : Scalar} {recoveryId : Option (Fin 4)}
    (r_ne_zero : r ≠ 0) (s_ne_zero : s ≠ 0) :
    (normalized r s recoveryId r_ne_zero s_ne_zero).toDer =
        Der.encodePair r.val s.val ↔
      s.val ≤ halfOrder := by
  rw [toDer, Der.encodePair_inj]
  constructor
  · rintro ⟨-, same⟩
    rw [← same]
    exact (normalized r s recoveryId r_ne_zero s_ne_zero).s_low
  · intro low
    unfold normalized
    rw [dif_pos low]
    exact ⟨rfl, rfl⟩

theorem eq_normalized_none_iff {r s : Scalar} (r_ne_zero : r ≠ 0)
    (s_ne_zero : s ≠ 0) {signature : Signature} :
    signature = normalized r s none r_ne_zero s_ne_zero ↔
      (signature.r.val : Int) = r.val ∧
        (signature.s.val : Int) = min (s.val : Int) (groupOrder - s.val) ∧
        signature.recoveryId = none := by
  have unnumbered :
      (normalized r s none r_ne_zero s_ne_zero).recoveryId = none := by
    unfold normalized
    split <;> rfl
  rw [Signature.ext_iff, r_normalized, unnumbered, Fin.ext_iff, Fin.ext_iff,
    ← val_s_normalized r_ne_zero s_ne_zero, Nat.cast_inj, Nat.cast_inj]

theorem ofDer_encodePair {r s : Scalar} (r_ne_zero : r ≠ 0)
    (s_ne_zero : s ≠ 0) :
    ofDer (Der.encodePair r.val s.val) =
      .ok (normalized r s none r_ne_zero s_ne_zero) := by
  unfold ofDer
  rw [Der.decodePair?_encodePair r.isLt s.isLt]
  exact ofNumbers_eq_normalized r_ne_zero s_ne_zero none

theorem ofDer_eq_ok_iff {bytes : Bytes} {signature : Signature} :
    ofDer bytes = .ok signature ↔
      ∃ (r s : Scalar) (r_ne_zero : r ≠ 0) (s_ne_zero : s ≠ 0),
        bytes = Der.encodePair r.val s.val ∧
          signature = normalized r s none r_ne_zero s_ne_zero := by
  constructor
  · exact ofDer_eq_ok
  · rintro ⟨r, s, r_ne_zero, s_ne_zero, rfl, rfl⟩
    exact ofDer_encodePair r_ne_zero s_ne_zero

theorem ofNumbers_readNumber_of_outside {r s : Int}
    (outside : ¬ (IsScalarNumber r ∧ IsScalarNumber s)) :
    ofNumbers (Der.readNumber r) (Der.readNumber s) none =
      .error (.signaturePartZero (if IsScalarNumber r then .s else .r)) := by
  unfold Der.readNumber
  by_cases rInRange : IsScalarNumber r
  · have sOutside : ¬ IsScalarNumber s := fun sInRange =>
      outside ⟨rInRange, sInRange⟩
    obtain ⟨scalar, nonzero, rfl⟩ := exists_scalar_of_isScalarNumber rInRange
    rw [if_pos rInRange, if_neg sOutside, if_pos rInRange, Int.toNat_natCast,
      ofNumbers, checkedScalar_val nonzero]
    rfl
  · rw [if_neg rInRange, if_neg rInRange]
    rfl

theorem ofNumbers_ne_encoding {r s : Nat} {recoveryId : Option (Fin 4)}
    {fault : EncodingFault} :
    ofNumbers r s recoveryId ≠ .error (.encoding fault) := by
  have checked (part : SignaturePart) (number : Nat) :
      checkedScalar part number ≠ .error (.encoding fault) := by
    unfold checkedScalar
    split
    · simp
    · split <;> simp
  simp only [ofNumbers, ne_eq, Error.bind_eq_error_iff, checked,
    Error.pure_ne_error, and_false, exists_false, or_self, not_false_eq_true]

theorem ofDer_of_isPair {bytes : Bytes} {r s : Int}
    (pair : Der.IsPair r s bytes) :
    ofDer bytes = ofNumbers (Der.readNumber r) (Der.readNumber s) none := by
  unfold ofDer
  rw [Der.decodePair?_eq_some_iff_isPair.mpr ⟨r, s, pair, rfl⟩]

theorem ofDer_eq_derSignature_iff {bytes : Bytes} :
    ofDer bytes = .error (.encoding .derSignature) ↔
      ¬ ∃ r s, Der.IsPair r s bytes := by
  constructor
  · rintro malformed ⟨r, s, pair⟩
    rw [ofDer_of_isPair pair] at malformed
    exact ofNumbers_ne_encoding malformed
  · intro unpaired
    cases decoded : Der.decodePair? bytes with
    | none => simp only [ofDer, decoded]
    | some numbers =>
        obtain ⟨r, s, pair, -⟩ :=
          Der.decodePair?_eq_some_iff_isPair.mp decoded
        exact absurd ⟨r, s, pair⟩ unpaired

/-- A byte string is read as a signature exactly if it is the sequence, with
lengths of one byte and nothing left over, of two non-zero scalars in their
shortest form.  Then it is written back with the lower one of the second scalar
and its opposite.  What is no sequence of two shortest integers is malformed, and
a sequence of two numbers that are not both scalars is out of range. -/
theorem ofDer_language (bytes : Bytes) :
    (∀ signature, ofDer bytes = .ok signature ↔
      ∃ r s, IsScalarNumber r ∧ IsScalarNumber s ∧
        Der.IsShortPair r s bytes ∧ signature.r.val = r ∧
        signature.s.val = min s (groupOrder - s) ∧
        signature.recoveryId = none) ∧
    (∀ r s, IsScalarNumber r → IsScalarNumber s →
      Der.IsShortPair r s bytes →
        ∃ signature, ofDer bytes = .ok signature ∧
          Der.IsShortPair r (min s (groupOrder - s)) signature.toDer ∧
          (signature.toDer = bytes ↔ s ≤ (groupOrder - 1) / 2)) ∧
    (ofDer bytes = .error (.encoding .derSignature) ↔
      ¬ ∃ r s, Der.IsPair r s bytes) ∧
    (∀ r s, Der.IsPair r s bytes →
      ¬ (IsScalarNumber r ∧ IsScalarNumber s) →
        ofDer bytes = .error
          (.signaturePartZero (if IsScalarNumber r then .s else .r))) := by
  refine ⟨fun signature => ?_, fun r s rInRange sInRange pair => ?_,
    ofDer_eq_derSignature_iff, fun r s pair outside => ?_⟩
  · rw [ofDer_eq_ok_iff]
    constructor
    · rintro ⟨r, s, rNonzero, sNonzero, rfl, parts⟩
      exact ⟨r.val, s.val, isScalarNumber_val rNonzero,
        isScalarNumber_val sNonzero, Der.isShortPair_iff.mpr rfl,
        (eq_normalized_none_iff rNonzero sNonzero).mp parts⟩
    · rintro ⟨r, s, rInRange, sInRange, pair, parts⟩
      obtain ⟨r, rNonzero, rfl⟩ := exists_scalar_of_isScalarNumber rInRange
      obtain ⟨s, sNonzero, rfl⟩ := exists_scalar_of_isScalarNumber sInRange
      exact ⟨r, s, rNonzero, sNonzero, Der.isShortPair_iff.mp pair,
        (eq_normalized_none_iff rNonzero sNonzero).mpr parts⟩
  · obtain ⟨r, rNonzero, rfl⟩ := exists_scalar_of_isScalarNumber rInRange
    obtain ⟨s, sNonzero, rfl⟩ := exists_scalar_of_isScalarNumber sInRange
    obtain rfl := Der.isShortPair_iff.mp pair
    refine ⟨_, ofDer_encodePair rNonzero sNonzero, ?_, ?_⟩
    · rw [← val_s_normalized rNonzero sNonzero]
      have written := Der.isShortPair_iff.mpr
        (rfl : (normalized r s none rNonzero sNonzero).toDer = _)
      rwa [r_normalized] at written
    · rw [toDer_normalized_eq_iff]
      have half : ((groupOrder : Int) - 1) / 2 = halfOrder := by decide
      rw [half, Nat.cast_le]
  · rw [ofDer_of_isPair pair, ofNumbers_readNumber_of_outside outside]

/-- A second number so high that its content is padded, and a negative one. -/
theorem ofDer_language_of_padded_and_negative :
    let padded : Bytes := 0x30 :: 0x26 :: 0x02 :: 0x01 :: 0x01 ::
      0x02 :: 0x21 :: 0x00 :: bigEndian 32 (groupOrder - 2)
    let negative : Bytes := [0x30, 0x06, 0x02, 0x01, 0x01, 0x02, 0x01, 0xff]
    Der.IsShortPair 1 (groupOrder - 2) padded ∧
      (∃ signature, ofDer padded = .ok signature ∧
        Der.IsShortPair 1 2 signature.toDer ∧ signature.toDer ≠ padded) ∧
      Der.IsPair 1 (-1) negative ∧
      ofDer negative = .error (.signaturePartZero .s) := by
  intro padded negative
  have one : Der.IsContent 1 [0x01] := Der.isContent_iff.mpr (by decide)
  have high : Der.IsContent (groupOrder - 2)
      (0x00 :: bigEndian 32 (groupOrder - 2)) :=
    Der.isContent_iff.mpr (by decide)
  have minusOne : Der.IsContent (-1) [0xff] := Der.isContent_iff.mpr (by decide)
  have paddedPair : Der.IsShortPair 1 (groupOrder - 2) padded :=
    ⟨_, _, one, high, by decide, rfl⟩
  have negativePair : Der.IsPair 1 (-1) negative :=
    Der.IsShortPair.isPair ⟨_, _, one, minusOne, by decide, rfl⟩
  obtain ⟨signature, read, written, same⟩ :=
    (ofDer_language padded).2.1 _ _ (by decide) (by decide) paddedPair
  refine ⟨paddedPair, ⟨signature, read, written, ?_⟩, negativePair,
    (ofDer_language negative).2.2.2 _ _ negativePair (by decide)⟩
  rw [ne_eq, same]
  decide

end Signature

end CoinSpend
