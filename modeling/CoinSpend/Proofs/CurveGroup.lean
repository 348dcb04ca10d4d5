import CoinSpend.Proofs.ResidueField
import Mathlib.AlgebraicGeometry.EllipticCurve.Affine.Point
import Mathlib.Tactic.FieldSimp
import Mathlib.Tactic.LinearCombination

/-!
# The points form a group

Addition by chords and tangents stays on the curve, and is the addition of the
group of the elliptic curve `y² = x³ + 7`.  Multiples of a point are its
multiples in that group.
-/

namespace CoinSpend

namespace Secp256k1

/-- The curve as a Weierstrass equation. -/
def curve : WeierstrassCurve.Affine Coordinate := ⟨0, 0, 0, 0, 7⟩

theorem curve_discriminant : curve.Δ ≠ 0 := by
  have value : curve.Δ = -(432 * 7 ^ 2) := by
    simp only [curve, WeierstrassCurve.Δ, WeierstrassCurve.b₂,
      WeierstrassCurve.b₄, WeierstrassCurve.b₆, WeierstrassCurve.b₈]
    ring
  rw [value]
  decide

theorem AffinePoint.onCurve_iff_nonsingular (point : AffinePoint) :
    point.OnCurve ↔ curve.Nonsingular point.x point.y := by
  rw [← curve.equation_iff_nonsingular_of_Δ_ne_zero curve_discriminant,
    WeierstrassCurve.Affine.equation_iff]
  simp only [AffinePoint.OnCurve, cubic, curve]
  ring_nf

namespace Point

/-- Whether a point is a point of the curve. -/
def OnCurve : Point → Prop
  | .infinity => True
  | .affine point => point.OnCurve

theorem onCurve_infinity : OnCurve .infinity := trivial

theorem onCurve_affine {point : AffinePoint} :
    OnCurve (.affine point) ↔ point.OnCurve :=
  Iff.rfl

/-- A point as an element of the group.  One that is not on the curve is taken
to zero. -/
def toGroup : Point → curve.Point
  | .infinity => 0
  | .affine point =>
      if onCurve : point.OnCurve then
        .some _ _ (point.onCurve_iff_nonsingular.mp onCurve)
      else 0

@[simp]
theorem toGroup_infinity : toGroup .infinity = 0 := rfl

theorem toGroup_affine {point : AffinePoint} (onCurve : point.OnCurve) :
    toGroup (.affine point) =
      .some _ _ (point.onCurve_iff_nonsingular.mp onCurve) :=
  dif_pos onCurve

theorem toGroup_injective {first second : Point} (firstOn : first.OnCurve)
    (secondOn : second.OnCurve) (same : first.toGroup = second.toGroup) :
    first = second := by
  cases first with
  | infinity =>
      cases second with
      | infinity => rfl
      | affine second =>
          rw [toGroup_affine secondOn] at same
          cases same
  | affine first =>
      rw [toGroup_affine firstOn] at same
      cases second with
      | infinity => cases same
      | affine second =>
          rw [toGroup_affine secondOn,
            WeierstrassCurve.Affine.Point.some.injEq] at same
          obtain ⟨sameX, sameY⟩ := same
          cases first
          cases second
          simp_all

theorem alongSlope_eq (slope : Coordinate) (first second : AffinePoint) :
    alongSlope slope first second =
      .affine ⟨curve.addX first.x second.x slope,
        curve.addY first.x second.x first.y slope⟩ := by
  have sumX : slope * slope - first.x - second.x =
      curve.addX first.x second.x slope := by
    simp only [WeierstrassCurve.Affine.addX, curve]
    ring
  have sumY : slope * (first.x - curve.addX first.x second.x slope) - first.y =
      curve.addY first.x second.x first.y slope := by
    simp only [WeierstrassCurve.Affine.addY, WeierstrassCurve.Affine.negY,
      WeierstrassCurve.Affine.negAddY, curve]
    ring
  rw [← sumY, ← sumX]
  rfl

/-- The two cases of addition that have a slope. -/
theorem alongSlope_view {first second : AffinePoint}
    (firstOn : first.OnCurve) (secondOn : second.OnCurve)
    (distinct : ¬ (first.x = second.x ∧
      first.y = curve.negY second.x second.y)) {slope : Coordinate}
    (slopeEq : slope = curve.slope first.x second.x first.y second.y) :
    (alongSlope slope first second).OnCurve ∧
      (alongSlope slope first second).toGroup =
        toGroup (.affine first) + toGroup (.affine second) := by
  have sumNonsingular := WeierstrassCurve.Affine.nonsingular_add
    (first.onCurve_iff_nonsingular.mp firstOn)
    (second.onCurve_iff_nonsingular.mp secondOn) distinct
  have sumOn : AffinePoint.OnCurve ⟨curve.addX first.x second.x slope,
      curve.addY first.x second.x first.y slope⟩ := by
    rw [AffinePoint.onCurve_iff_nonsingular, slopeEq]
    exact sumNonsingular
  rw [alongSlope_eq]
  refine ⟨sumOn, ?_⟩
  rw [toGroup_affine firstOn, toGroup_affine secondOn, toGroup_affine sumOn,
    WeierstrassCurve.Affine.Point.add_some distinct]
  subst slopeEq
  rfl

theorem negY_eq (x y : Coordinate) : curve.negY x y = -y := by
  simp only [WeierstrassCurve.Affine.negY, curve]
  ring

theorem slope_of_tangent {first second : AffinePoint}
    (sameX : first.x = second.x) (nonvertical : first.y + second.y ≠ 0) :
    3 * first.x * first.x * inverse (2 * first.y) =
      curve.slope first.x second.x first.y second.y := by
  have distinct : first.y ≠ curve.negY second.x second.y := by
    rw [negY_eq]
    exact fun opposite => nonvertical (by rw [opposite, neg_add_cancel])
  rw [WeierstrassCurve.Affine.slope_of_Y_ne sameX distinct, negY_eq,
    Coordinate.inverse_eq_inv, div_eq_mul_inv]
  simp only [curve]
  ring

theorem slope_of_chord {first second : AffinePoint}
    (distinct : first.x ≠ second.x) :
    (second.y - first.y) * inverse (second.x - first.x) =
      curve.slope first.x second.x first.y second.y := by
  rw [WeierstrassCurve.Affine.slope_of_X_ne distinct, Coordinate.inverse_eq_inv,
    ← neg_sub first.x, ← neg_sub first.y, inv_neg, neg_mul_neg, div_eq_mul_inv]

theorem add_view (first second : Point) (firstOn : first.OnCurve)
    (secondOn : second.OnCurve) :
    (first + second).OnCurve ∧
      (first + second).toGroup = first.toGroup + second.toGroup := by
  cases first with
  | infinity => exact ⟨secondOn, (zero_add _).symm⟩
  | affine first =>
      cases second with
      | infinity => exact ⟨firstOn, (add_zero _).symm⟩
      | affine second =>
          change (add _ _).OnCurve ∧ (add _ _).toGroup = _
          rw [add]
          split
          · rename_i sameX
            split
            · rename_i vertical
              refine ⟨trivial, ?_⟩
              rw [toGroup_affine firstOn, toGroup_affine secondOn]
              symm
              apply WeierstrassCurve.Affine.Point.add_of_Y_eq sameX
              rw [negY_eq]
              exact eq_neg_of_add_eq_zero_left vertical
            · rename_i nonvertical
              refine alongSlope_view firstOn secondOn ?_
                (slope_of_tangent sameX nonvertical)
              rintro ⟨-, opposite⟩
              rw [negY_eq] at opposite
              exact nonvertical (by rw [opposite, neg_add_cancel])
          · rename_i distinct
            exact alongSlope_view firstOn secondOn
              (fun same => distinct same.1) (slope_of_chord distinct)

theorem multiple_view (count : Nat) {point : Point} (onCurve : point.OnCurve) :
    (multiple count point).OnCurve ∧
      (multiple count point).toGroup = count • point.toGroup :=
  combineCopies_view OnCurve toGroup onCurve_infinity toGroup_infinity add_view
    onCurve count

end Point

end Secp256k1

end CoinSpend
