import CoinSpend.Proofs.PrimeModuli

/-!
# Residues modulo a prime are a field

Coordinates and scalars are fields under the operations that the curve is
computed with: the inverse of a residue is its power by two less than the
modulus.
-/

namespace CoinSpend

namespace Secp256k1

section

open Fin.CommRing

variable {modulus : Nat} [NeZero modulus]

theorem power_eq_pow (base : Fin modulus) (exponent : Nat) :
    power base exponent = base ^ exponent := by
  have repeated : True ∧ Additive.ofMul (power base exponent) =
      exponent • Additive.ofMul base := by
    refine combineCopies_view (fun _ => True) Additive.ofMul trivial ?_
      (fun _ _ _ _ => ⟨trivial, rfl⟩) trivial exponent
    exact ofMul_one
  rw [← ofMul_pow] at repeated
  exact Additive.ofMul.injective repeated.2

theorem pow_pred_modulus (prime : modulus.Prime) {number : Fin modulus}
    (nonzero : number ≠ 0) : number ^ (modulus - 1) = 1 := by
  have := Fact.mk prime
  apply (ZMod.finEquiv modulus).injective
  rw [map_pow, map_one]
  apply ZMod.pow_card_sub_one_eq_one
  rwa [ne_eq, EmbeddingLike.map_eq_zero_iff]

theorem mul_inverse (prime : modulus.Prime) {number : Fin modulus}
    (nonzero : number ≠ 0) : number * inverse number = 1 := by
  have aboveOne := prime.two_le
  rw [inverse, power_eq_pow, ← pow_succ', ← pow_pred_modulus prime nonzero]
  congr 1
  omega

theorem inverse_zero (prime : modulus.Prime) (odd : modulus ≠ 2) :
    inverse (0 : Fin modulus) = 0 := by
  have aboveOne := prime.two_le
  rw [inverse, power_eq_pow, zero_pow]
  omega

/-- The field of residues modulo an odd prime. -/
abbrev residueField (prime : modulus.Prime) (odd : modulus ≠ 2) :
    Field (Fin modulus) where
  inv := inverse
  div dividend divisor := dividend * inverse divisor
  div_eq_mul_inv _ _ := rfl
  exists_pair_ne := ⟨0, 1, by
    have := Fact.mk prime
    rw [ne_eq, Fin.ext_iff]
    change ¬ 0 = 1 % modulus
    rw [Nat.mod_eq_of_lt prime.one_lt]
    omega⟩
  mul_inv_cancel _ nonzero := mul_inverse prime nonzero
  inv_zero := inverse_zero prime odd
  nnqsmul := _
  nnqsmul_def _ _ := rfl
  qsmul := _
  qsmul_def _ _ := rfl

end

instance : Field Coordinate :=
  residueField fieldPrime_prime (by decide)

instance : Field Scalar :=
  residueField groupOrder_prime (by decide)

theorem Coordinate.inverse_eq_inv (number : Coordinate) :
    inverse number = number⁻¹ := rfl

end Secp256k1

end CoinSpend
