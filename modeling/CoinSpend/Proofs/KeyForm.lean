import CoinSpend.PublicKey
import CoinSpend.Proofs.Positional
import CoinSpend.Proofs.ResidueField
import Mathlib.Tactic.LinearCombination

/-!
# Public keys survive their own form

The compressed form leaves out all of the second coordinate but its parity.  The
square root finds it again up to its sign, and opposite coordinates have
different parities.
-/

namespace CoinSpend

namespace Secp256k1

theorem squareRoot_mul_self (number : Coordinate) :
    squareRoot (number * number) * squareRoot (number * number) =
      number * number := by
  unfold squareRoot
  rw [power_eq_pow, ← pow_two number, ← pow_mul, ← pow_add]
  rcases eq_or_ne number 0 with rfl | nonzero
  · rw [zero_pow (by decide), zero_pow (by decide)]
  · have exponent : 2 * ((fieldPrime + 1) / 4) + 2 * ((fieldPrime + 1) / 4) =
        (fieldPrime - 1) + 2 := by
      decide
    rw [exponent, pow_add, pow_pred_modulus fieldPrime_prime nonzero, one_mul]

theorem odd_neg {number : Coordinate} (nonzero : number ≠ 0) :
    ((-number).val % 2 = 1) ↔ ¬ number.val % 2 = 1 := by
  have positive : number.val ≠ 0 := fun isZero => nonzero (Fin.ext isZero)
  have bound := number.isLt
  have value : (-number).val = fieldPrime - number.val := by
    change (fieldPrime - number.val) % fieldPrime = _
    exact Nat.mod_eq_of_lt (by omega)
  have odd : fieldPrime % 2 = 1 := by decide
  omega

/-- The two square roots of a number are told apart by their parity. -/
theorem root_of_parity {root number : Coordinate}
    (square : root * root = number * number) :
    (if (root.val % 2 == 1) = (number.val % 2 == 1) then root else -root) =
      number := by
  rcases mul_self_eq_mul_self_iff.mp square with rfl | rfl
  · rw [if_pos rfl]
  · rcases eq_or_ne number 0 with rfl | nonzero
    · simp
    · rw [if_neg, neg_neg]
      intro sameParity
      have parities := odd_neg nonzero
      rw [Bool.eq_iff_iff, beq_iff_eq, beq_iff_eq] at sameParity
      tauto

/-- No point of the curve lies on the axis: the opposite of seven is not a
cube, since its power that would be one if it were is not. -/
theorem cubic_ne_zero (x : Coordinate) : cubic x ≠ 0 := by
  intro root
  have nonzero : x ≠ 0 := by
    rintro rfl
    exact absurd root (by decide)
  have cube : x ^ 3 = -7 := by
    unfold cubic at root
    linear_combination root
  have exponent : 3 * ((fieldPrime - 1) / 3) = fieldPrime - 1 := by decide
  have powerOne : (-7 : Coordinate) ^ ((fieldPrime - 1) / 3) = 1 := by
    rw [← cube, ← pow_mul, exponent]
    exact pow_pred_modulus fieldPrime_prime nonzero
  rw [← power_eq_pow] at powerOne
  exact absurd powerOne (by decide +kernel)

theorem odd_neg_eq_not {number : Coordinate} (nonzero : number ≠ 0) :
    ((-number).val % 2 == 1) = !(number.val % 2 == 1) := by
  rw [Bool.eq_iff_iff, beq_iff_eq, odd_neg nonzero]
  simp

/-- A point that is found lies on the curve, where it was asked for. -/
theorem pointAt?_eq_some {x : Coordinate} {odd : Bool} {point : AffinePoint}
    (found : pointAt? x odd = some point) :
    point.x = x ∧ (point.y.val % 2 == 1) = odd ∧ point.OnCurve := by
  have nonzero : squareRoot (cubic x) * squareRoot (cubic x) = cubic x →
      squareRoot (cubic x) ≠ 0 := by
    intro square zero
    rw [zero, mul_zero] at square
    exact cubic_ne_zero x square.symm
  unfold pointAt? at found
  generalize squareRoot (cubic x) = root at found nonzero
  simp only [Option.ite_none_right_eq_some, Option.some.injEq] at found
  obtain ⟨square, rfl⟩ := found
  split
  · rename_i same
    exact ⟨rfl, same, square⟩
  · rename_i differs
    have negated : -root * -root = cubic x := by rw [neg_mul_neg, square]
    refine ⟨rfl, ?_, negated⟩
    rw [odd_neg_eq_not (nonzero square)]
    exact (Bool.eq_not_of_ne fun same => differs same.symm).symm

theorem pointAt?_of_onCurve {point : AffinePoint} (onCurve : point.OnCurve) :
    pointAt? point.x (point.y.val % 2 == 1) = some point := by
  unfold AffinePoint.OnCurve at onCurve
  unfold pointAt?
  have square := squareRoot_mul_self point.y
  rw [onCurve] at square
  simp only [square, if_true]
  rw [root_of_parity (square.trans onCurve.symm)]

end Secp256k1

open Secp256k1

namespace PublicKey

theorem coordinate?_coordinateBytes (coordinate : Coordinate) :
    coordinate? (coordinateBytes coordinate) = some coordinate := by
  have bound := coordinate.isLt
  have fits : fieldPrime < 256 ^ 32 := by decide
  have value : bigEndianValue (coordinateBytes coordinate) = coordinate.val := by
    unfold coordinateBytes
    rw [bigEndianValue_bigEndian]
    exact Nat.mod_eq_of_lt (by omega)
  unfold coordinate?
  simp only [value, dif_pos bound]

@[simp]
theorem length_coordinateBytes (coordinate : Coordinate) :
    (coordinateBytes coordinate).length = 32 :=
  bigEndian_length 32 coordinate.val

theorem compressedPoint?_of_onCurve {point : AffinePoint}
    (onCurve : point.OnCurve) :
    compressedPoint? (point.y.val % 2 == 1) (coordinateBytes point.x) =
      some point := by
  unfold compressedPoint?
  simp only [coordinate?_coordinateBytes, Option.bind_eq_bind, Option.bind_some]
  exact pointAt?_of_onCurve onCurve

theorem uncompressedPoint?_of_onCurve {point : AffinePoint}
    (onCurve : point.OnCurve) :
    uncompressedPoint? (coordinateBytes point.x ++ coordinateBytes point.y) =
      some point := by
  unfold uncompressedPoint?
  rw [List.take_left' (length_coordinateBytes point.x),
    List.drop_left' (length_coordinateBytes point.x),
    coordinate?_coordinateBytes, coordinate?_coordinateBytes]
  simp [onCurve]

theorem length_toBytes (key : PublicKey) :
    key.toBytes.length = if key.compressed then 33 else 65 := by
  unfold toBytes
  cases key.compressed <;> simp

theorem ofBytes_toBytes {key : PublicKey} (onCurve : key.point.OnCurve) :
    ofBytes key.toBytes = .ok key := by
  obtain ⟨point, compressed⟩ := key
  cases compressed with
  | false =>
      have found := uncompressedPoint?_of_onCurve onCurve
      simp [toBytes, ofBytes, found, ofPoint?]
  | true =>
      have found := compressedPoint?_of_onCurve onCurve
      by_cases odd : point.y.val % 2 = 1
      · rw [beq_iff_eq.mpr odd] at found
        simp [toBytes, ofBytes, odd, found, ofPoint?]
      · rw [beq_false_of_ne odd] at found
        simp [toBytes, ofBytes, odd, found, ofPoint?]

theorem coordinateBytes_of_coordinate? {field : Bytes}
    {coordinate : Coordinate} (wide : field.length = 32)
    (found : coordinate? field = some coordinate) :
    coordinateBytes coordinate = field := by
  unfold coordinate? at found
  simp only at found
  split at found
  · cases found
    have same := bigEndian_bigEndianValue field
    rwa [wide] at same
  · contradiction

theorem ofPoint?_eq_ok {compressed : Bool} {found : Option AffinePoint}
    {key : PublicKey} (accepted : ofPoint? compressed found = .ok key) :
    found = some key.point ∧ key.compressed = compressed := by
  cases found with
  | none => cases accepted
  | some point =>
      cases accepted
      exact ⟨rfl, rfl⟩

/-- What is accepted as a compressed form is the one of the key. -/
theorem toBytes_of_compressedPoint? {odd : Bool} {field : Bytes}
    {point : AffinePoint} (wide : field.length = 32)
    (found : compressedPoint? odd field = some point) :
    toBytes ⟨point, true⟩ = (if odd then 0x03 else 0x02) :: field ∧
      point.OnCurve := by
  unfold compressedPoint? at found
  obtain ⟨x, foundX, foundPoint⟩ := Option.bind_eq_some_iff.mp found
  obtain ⟨rfl, rfl, onCurve⟩ := pointAt?_eq_some foundPoint
  have fieldEq := coordinateBytes_of_coordinate? wide foundX
  refine ⟨?_, onCurve⟩
  simp [toBytes, fieldEq]

theorem toBytes_of_uncompressedPoint? {fields : Bytes} {point : AffinePoint}
    (wide : fields.length = 64)
    (found : uncompressedPoint? fields = some point) :
    toBytes ⟨point, false⟩ = 0x04 :: fields ∧ point.OnCurve := by
  unfold uncompressedPoint? at found
  obtain ⟨x, foundX, rest⟩ := Option.bind_eq_some_iff.mp found
  obtain ⟨y, foundY, checked⟩ := Option.bind_eq_some_iff.mp rest
  obtain ⟨_, guarded, returned⟩ := Option.bind_eq_some_iff.mp checked
  have onCurve : (AffinePoint.mk x y).OnCurve := by
    by_contra off
    simp [guard, off] at guarded
  cases returned
  have xEq := coordinateBytes_of_coordinate? (by simp [wide]) foundX
  have yEq := coordinateBytes_of_coordinate? (by simp [wide]) foundY
  refine ⟨?_, onCurve⟩
  simp [toBytes, xEq, yEq]

/-- Every accepted byte string is the form of the key that it is read as, and
the key's point is on the curve. -/
theorem toBytes_of_ofBytes {bytes : Bytes} {key : PublicKey}
    (accepted : ofBytes bytes = .ok key) :
    key.toBytes = bytes ∧ key.point.OnCurve := by
  unfold ofBytes at accepted
  rcases bytes with _ | ⟨form, fields⟩
  · contradiction
  simp only at accepted
  split at accepted
  · rename_i wide
    split at accepted
    · rename_i formEq
      obtain ⟨found, compressed⟩ := ofPoint?_eq_ok accepted
      obtain ⟨point, _⟩ := key
      cases compressed
      have written := toBytes_of_compressedPoint? wide found
      rcases formEq with rfl | rfl
      · exact written
      · exact written
    · contradiction
  · split at accepted
    · rename_i wide
      split at accepted
      · rename_i formEq
        obtain ⟨found, compressed⟩ := ofPoint?_eq_ok accepted
        obtain ⟨point, _⟩ := key
        cases compressed
        cases formEq
        exact toBytes_of_uncompressedPoint? wide found
      · contradiction
    · contradiction

end PublicKey

end CoinSpend
