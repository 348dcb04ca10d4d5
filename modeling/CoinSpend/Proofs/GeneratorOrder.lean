import CoinSpend.Proofs.CurveGroup

/-!
# The order of the generator

Counting the generator once less than its order gives its opposite.  The count
is made with a common denominator for both coordinates, so that nothing is
divided before the end.
-/

namespace CoinSpend

namespace Secp256k1

/-- Coordinates over a common denominator: `z` divides the first coordinate
twice and the second one three times. -/
structure ScaledPoint where
  x : Coordinate
  y : Coordinate
  z : Coordinate

namespace ScaledPoint

def double (scaled : ScaledPoint) : ScaledPoint :=
  let squareY := scaled.y * scaled.y
  let cross := 4 * scaled.x * squareY
  let tangent := 3 * scaled.x * scaled.x
  let x := tangent * tangent - 2 * cross
  ⟨x, tangent * (cross - x) - 8 * squareY * squareY, 2 * scaled.y * scaled.z⟩

def addAffine (scaled : ScaledPoint) (point : AffinePoint) : ScaledPoint :=
  let squareZ := scaled.z * scaled.z
  let width := point.x * squareZ - scaled.x
  let height := point.y * (squareZ * scaled.z) - scaled.y
  let squareWidth := width * width
  let cubeWidth := squareWidth * width
  let x := height * height - cubeWidth - 2 * scaled.x * squareWidth
  ⟨x, height * (scaled.x * squareWidth - x) - scaled.y * cubeWidth,
    scaled.z * width⟩

/-- The multiple of a point by a number with one binary digit more than asked
for. -/
def ladder (base : AffinePoint) : (digits count : Nat) → ScaledPoint
  | 0, _ => ⟨base.x, base.y, 1⟩
  | digits + 1, count =>
      let doubled := (ladder base digits (count / 2)).double
      if count % 2 = 1 then doubled.addAffine base else doubled

/-- Whether a denominator and the coordinates over it are those of a point. -/
structure Represents (scaled : ScaledPoint) (point : AffinePoint) : Prop where
  x_eq : scaled.x = point.x * scaled.z ^ 2
  y_eq : scaled.y = point.y * scaled.z ^ 3

variable {scaled : ScaledPoint} {point base : AffinePoint}

theorem represents_double (represents : scaled.Represents point)
    (nonzero : scaled.double.z ≠ 0) :
    ∃ sum, Point.affine point + .affine point = .affine sum ∧
      scaled.double.Represents sum := by
  obtain ⟨xEq, yEq⟩ := represents
  have yNonzero : 2 * point.y ≠ 0 := by
    intro yZero
    apply nonzero
    change 2 * scaled.y * scaled.z = 0
    rw [yEq, ← mul_assoc, yZero, zero_mul, zero_mul]
  let slope := 3 * point.x * point.x * inverse (2 * point.y)
  have slopeEq : slope * (2 * point.y) = 3 * point.x * point.x := by
    rw [mul_assoc, mul_comm (inverse _), mul_inverse fieldPrime_prime yNonzero,
      mul_one]
  refine ⟨⟨slope * slope - point.x - point.x,
    slope * (point.x - (slope * slope - point.x - point.x)) - point.y⟩, ?_, ?_⟩
  · change Point.add _ _ = _
    rw [Point.add, if_pos rfl, if_neg (by rwa [← two_mul])]
    rfl
  · constructor
    · simp only [double, xEq, yEq]
      linear_combination (-(scaled.z ^ 8) *
        (3 * point.x * point.x + slope * (2 * point.y))) * slopeEq
    · simp only [double, xEq, yEq]
      linear_combination (scaled.z ^ 12 *
        ((3 * point.x * point.x) ^ 2 +
          3 * point.x * point.x * (slope * (2 * point.y)) +
          (slope * (2 * point.y)) ^ 2 - 12 * point.x * point.y ^ 2)) * slopeEq

theorem represents_addAffine (represents : scaled.Represents point)
    (nonzero : (scaled.addAffine base).z ≠ 0) :
    ∃ sum, Point.affine point + .affine base = .affine sum ∧
      (scaled.addAffine base).Represents sum := by
  obtain ⟨xEq, yEq⟩ := represents
  have distinct : base.x - point.x ≠ 0 := by
    intro sameX
    apply nonzero
    change scaled.z * (base.x * (scaled.z * scaled.z) - scaled.x) = 0
    rw [xEq, ← pow_two, ← sub_mul, sameX, zero_mul, mul_zero]
  let slope := (base.y - point.y) * inverse (base.x - point.x)
  have slopeEq : slope * (base.x - point.x) = base.y - point.y := by
    rw [mul_assoc, mul_comm (inverse _), mul_inverse fieldPrime_prime distinct,
      mul_one]
  refine ⟨⟨slope * slope - point.x - base.x,
    slope * (point.x - (slope * slope - point.x - base.x)) - point.y⟩, ?_, ?_⟩
  · change Point.add _ _ = _
    rw [Point.add, if_neg fun same => distinct (sub_eq_zero.mpr same.symm)]
    rfl
  · constructor
    · simp only [addAffine, xEq, yEq]
      linear_combination (-(scaled.z ^ 6) *
        (base.y - point.y + slope * (base.x - point.x))) * slopeEq
    · simp only [addAffine, xEq, yEq]
      linear_combination (scaled.z ^ 9 *
        ((base.y - point.y) ^ 2 +
          (base.y - point.y) * (slope * (base.x - point.x)) +
          (slope * (base.x - point.x)) ^ 2 -
          (base.x - point.x) ^ 2 * (2 * point.x + base.x))) * slopeEq

/-- A denominator that is not zero at the end has never been zero before. -/
theorem represents_ladder (baseOn : base.OnCurve) {digits count : Nat}
    (lower : 2 ^ digits ≤ count) (upper : count < 2 ^ (digits + 1))
    (nonzero : (ladder base digits count).z ≠ 0) :
    ∃ multiple : AffinePoint, multiple.OnCurve ∧
      Point.toGroup (.affine multiple) =
        count • Point.toGroup (.affine base) ∧
      (ladder base digits count).Represents multiple := by
  induction digits generalizing count with
  | zero =>
      have one : count = 1 := by omega
      subst one
      refine ⟨base, baseOn, (one_nsmul _).symm, ?_, ?_⟩
      · simp [ladder]
      · simp [ladder]
  | succ digits ih =>
      rw [Nat.pow_succ] at lower upper
      have halfLower : 2 ^ digits ≤ count / 2 := by omega
      have halfUpper : count / 2 < 2 ^ (digits + 1) := by omega
      let half := ladder base digits (count / 2)
      have doubledNonzero : half.double.z ≠ 0 := by
        rw [ladder] at nonzero
        split at nonzero
        · exact left_ne_zero_of_mul nonzero
        · exact nonzero
      have halfNonzero : half.z ≠ 0 := right_ne_zero_of_mul doubledNonzero
      obtain ⟨point, pointOn, pointEq, represents⟩ :=
        ih halfLower halfUpper halfNonzero
      obtain ⟨doubled, doubledEq, doubledRepresents⟩ :=
        represents_double represents doubledNonzero
      have doubling := Point.add_view (.affine point) (.affine point) pointOn
        pointOn
      rw [doubledEq, pointEq, ← add_nsmul] at doubling
      obtain ⟨doubledOn, doubledView⟩ := doubling
      rw [ladder] at nonzero ⊢
      split at nonzero
      · rename_i odd
        rw [if_pos odd]
        obtain ⟨sum, sumEq, sumRepresents⟩ :=
          represents_addAffine doubledRepresents nonzero
        have adding := Point.add_view (.affine doubled) (.affine base) doubledOn
          baseOn
        rw [sumEq, doubledView, ← succ_nsmul] at adding
        refine ⟨sum, adding.1, ?_, sumRepresents⟩
        rw [adding.2]
        congr 1
        omega
      · rename_i even
        rw [if_neg even]
        refine ⟨doubled, doubledOn, ?_, doubledRepresents⟩
        rw [doubledView]
        congr 1
        omega

end ScaledPoint

/-- The generator as an element of the group. -/
def groupGenerator : curve.Point :=
  Point.toGroup (.affine generator)

theorem pred_order_nsmul_generator :
    (groupOrder - 1) • groupGenerator = -groupGenerator := by
  let last := ScaledPoint.ladder generator 255 (groupOrder - 1)
  have opposite : last.z ≠ 0 ∧ last.x = generator.x * (last.z * last.z) ∧
      last.y = -generator.y * (last.z * last.z * last.z) := by
    decide +kernel
  obtain ⟨nonzero, lastX, lastY⟩ := opposite
  obtain ⟨multiple, multipleOn, multipleEq, represents⟩ :=
    ScaledPoint.represents_ladder generator_onCurve (by decide) (by decide)
      nonzero
  have multipleX : multiple.x = generator.x := by
    apply mul_right_cancel₀ (pow_ne_zero 2 nonzero)
    rw [← represents.x_eq, lastX, pow_two]
  have multipleY : multiple.y = -generator.y := by
    apply mul_right_cancel₀ (pow_ne_zero 3 nonzero)
    rw [← represents.y_eq, lastY, pow_three']
  unfold groupGenerator
  rw [← multipleEq, Point.toGroup_affine multipleOn,
    Point.toGroup_affine generator_onCurve,
    WeierstrassCurve.Affine.Point.neg_some,
    WeierstrassCurve.Affine.Point.some.injEq, Point.negY_eq]
  exact ⟨multipleX, multipleY⟩

theorem order_nsmul_generator : groupOrder • groupGenerator = 0 := by
  have orderEq : groupOrder = (groupOrder - 1) + 1 := by decide
  rw [orderEq, succ_nsmul, pred_order_nsmul_generator, neg_add_cancel]

end Secp256k1

end CoinSpend
