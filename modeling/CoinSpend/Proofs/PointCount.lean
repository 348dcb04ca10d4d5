import CoinSpend.Proofs.GeneratorOrder
import CoinSpend.Proofs.KeyForm
import Mathlib.Algebra.Module.Defs
import Mathlib.GroupTheory.Perm.Cycle.Type

/-!
# The curve has as many points as its generator has multiples

The order of the generator is prime and divides the number of points.  There are
at most two points over each first coordinate, so the number is less than three
times the order, and it is odd because no point is its own opposite.  Hence the
order annihilates every point, and the points are a space over the scalars.
-/

namespace CoinSpend

namespace Secp256k1

/-- What a compressed key keeps of a point. -/
def compressedCoordinates : curve.Point → Option (Coordinate × Bool)
  | .zero => none
  | .some x y _ => some (x, y.val % 2 == 1)

theorem mul_self_of_nonsingular {x y : Coordinate}
    (nonsingular : curve.Nonsingular x y) : y * y = cubic x :=
  (AffinePoint.mk x y).onCurve_iff_nonsingular.mpr nonsingular

theorem compressedCoordinates_injective :
    Function.Injective compressedCoordinates := by
  intro first second same
  cases first with
  | zero =>
      cases second with
      | zero => rfl
      | some x y nonsingular => cases same
  | some x y nonsingular =>
      cases second with
      | zero => cases same
      | some otherX otherY otherNonsingular =>
          simp only [compressedCoordinates, Option.some.injEq,
            Prod.mk.injEq] at same
          obtain ⟨rfl, sameParity⟩ := same
          have squares : y * y = otherY * otherY := by
            rw [mul_self_of_nonsingular nonsingular,
              mul_self_of_nonsingular otherNonsingular]
          have sameY := root_of_parity squares
          rw [if_pos sameParity] at sameY
          subst sameY
          rfl

instance : Finite curve.Point :=
  Finite.of_injective _ compressedCoordinates_injective

theorem card_point_le : Nat.card curve.Point ≤ 2 * fieldPrime + 1 := by
  calc Nat.card curve.Point
      ≤ Nat.card (Option (Coordinate × Bool)) :=
        Nat.card_le_card_of_injective _ compressedCoordinates_injective
    _ = 2 * fieldPrime + 1 := by
        rw [Finite.card_option, Nat.card_prod, Nat.card_fin,
          Nat.card_eq_fintype_card, Fintype.card_bool, Nat.mul_comm]

theorem eq_zero_of_two_nsmul {element : curve.Point}
    (vanishes : 2 • element = 0) : element = 0 := by
  rw [two_nsmul] at vanishes
  have opposite := eq_neg_of_add_eq_zero_left vanishes
  cases element with
  | zero => rfl
  | some x y nonsingular =>
      rw [WeierstrassCurve.Affine.Point.neg_some,
        WeierstrassCurve.Affine.Point.some.injEq, Point.negY_eq] at opposite
      have double : (2 : Coordinate) * y = 0 := by
        linear_combination opposite.2
      rcases mul_eq_zero.mp double with two | onAxis
      · exact absurd two (by decide)
      · have square := mul_self_of_nonsingular nonsingular
        rw [onAxis, mul_zero] at square
        exact absurd square.symm (cubic_ne_zero x)

theorem groupGenerator_ne_zero : groupGenerator ≠ 0 := by
  unfold groupGenerator
  rw [Point.toGroup_affine generator_onCurve]
  exact WeierstrassCurve.Affine.Point.some_ne_zero _

theorem addOrderOf_groupGenerator : addOrderOf groupGenerator = groupOrder :=
  have := Fact.mk groupOrder_prime
  addOrderOf_eq_prime order_nsmul_generator groupGenerator_ne_zero

theorem card_point : Nat.card curve.Point = groupOrder := by
  obtain ⟨cosets, count⟩ : groupOrder ∣ Nat.card curve.Point := by
    rw [← addOrderOf_groupGenerator]
    exact addOrderOf_dvd_natCard groupGenerator
  have positive : 0 < Nat.card curve.Point := Nat.card_pos
  have few := card_point_le
  have bound : 2 * fieldPrime + 1 < groupOrder * 3 := by decide
  have notTwo : cosets ≠ 2 := by
    rintro rfl
    obtain ⟨element, orderTwo⟩ := exists_prime_addOrderOf_dvd_card' 2
      (Dvd.intro_left groupOrder count.symm)
    have isZero := eq_zero_of_two_nsmul
      (orderTwo ▸ addOrderOf_nsmul_eq_zero element)
    rw [isZero, addOrderOf_zero] at orderTwo
    contradiction
  have below : cosets < 3 := by
    by_contra more
    have := Nat.mul_le_mul_left groupOrder (Nat.not_lt.mp more)
    omega
  have above : cosets ≠ 0 := by
    rintro rfl
    omega
  have one : cosets = 1 := by omega
  rw [count, one, Nat.mul_one]

theorem order_nsmul (element : curve.Point) : groupOrder • element = 0 := by
  rw [← card_point]
  exact card_nsmul_eq_zero'

theorem mod_order_nsmul (count : Nat) (element : curve.Point) :
    (count % groupOrder) • element = count • element := by
  conv_rhs => rw [← Nat.div_add_mod count groupOrder]
  rw [add_nsmul, mul_nsmul, order_nsmul, nsmul_zero, zero_add]

/-- The points are multiplied by scalars as by numbers. -/
instance : Module Scalar curve.Point where
  smul scalar element := scalar.val • element
  one_smul element := one_nsmul element
  mul_smul _ _ element :=
    (mod_order_nsmul _ element).trans (mul_nsmul' element _ _)
  smul_zero scalar := nsmul_zero scalar.val
  smul_add scalar first second := nsmul_add first second scalar.val
  add_smul _ _ element :=
    (mod_order_nsmul _ element).trans (add_nsmul element _ _)
  zero_smul element := zero_nsmul element

end Secp256k1

end CoinSpend
