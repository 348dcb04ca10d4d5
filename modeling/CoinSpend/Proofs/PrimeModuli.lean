import CoinSpend.Secp256k1
import CoinSpend.Proofs.RepeatedCombination
import Mathlib.Algebra.BigOperators.Associated
import Mathlib.FieldTheory.Finite.Basic
import Mathlib.Tactic.NormNum.Prime

/-!
# The two moduli are prime

A number is prime if its predecessor has prime factors whose product is not below
its square root, and powers of two certify each of these factors: every prime
divisor of the number then leaves the remainder one by each of them, and is too
large to be a proper one.
-/

namespace CoinSpend

/-- A power of two modulo a number. -/
def powerOfTwo (modulus exponent : Nat) : Nat :=
  combineCopies (fun first second => first * second % modulus) 1 2 exponent

/-- Evidence on powers of two that every prime divisor of a number is above the
product of the given factors, and that this is above its square root. -/
structure PowersCertify (number : Nat) (factors : Finset Nat) : Prop where
  above_one : 1 < number
  le_square : number ≤ (∏ factor ∈ factors, factor) ^ 2
  full_power : powerOfTwo number (number - 1) = 1
  factor_dvd : ∀ factor ∈ factors, factor ∣ number - 1
  partial_power : ∀ factor ∈ factors,
    (powerOfTwo number ((number - 1) / factor) + (number - 1)).Coprime number

instance (number : Nat) (factors : Finset Nat) :
    Decidable (PowersCertify number factors) :=
  decidable_of_iff
    (1 < number ∧ number ≤ (∏ factor ∈ factors, factor) ^ 2 ∧
      powerOfTwo number (number - 1) = 1 ∧
      (∀ factor ∈ factors, factor ∣ number - 1) ∧
      ∀ factor ∈ factors,
        (powerOfTwo number ((number - 1) / factor) + (number - 1)).Coprime
          number)
    ⟨fun ⟨aboveOne, leSquare, fullPower, factorDvd, partialPower⟩ =>
      ⟨aboveOne, leSquare, fullPower, factorDvd, partialPower⟩,
    fun certified =>
      ⟨certified.above_one, certified.le_square, certified.full_power,
        certified.factor_dvd, certified.partial_power⟩⟩

theorem powerOfTwo_cast {modulus divisor : Nat} (divides : divisor ∣ modulus)
    (exponent : Nat) :
    (powerOfTwo modulus exponent : ZMod divisor) = 2 ^ exponent := by
  have reduced : True ∧
      Additive.ofMul (powerOfTwo modulus exponent : ZMod divisor) =
        exponent • Additive.ofMul ((2 : Nat) : ZMod divisor) := by
    refine combineCopies_view (fun _ => True)
      (fun number : Nat => Additive.ofMul (number : ZMod divisor))
      trivial ?_ (fun first second _ _ => ⟨trivial, ?_⟩) trivial exponent
    · change Additive.ofMul ((1 : Nat) : ZMod divisor) = 0
      rw [Nat.cast_one, ofMul_one]
    · rw [← ofMul_mul, ← Nat.cast_mul]
      congr 1
      rw [ZMod.natCast_eq_natCast_iff]
      exact (Nat.mod_modEq _ modulus).of_dvd divides
  rw [← ofMul_pow] at reduced
  exact Additive.ofMul.injective reduced.2

namespace PowersCertify

variable {number : Nat} {factors : Finset Nat}

theorem factor_dvd_pred (certified : PowersCertify number factors)
    {factor : Nat} (mem : factor ∈ factors) (factorPrime : factor.Prime)
    {divisor : Nat} (divisorPrime : divisor.Prime)
    (divides : divisor ∣ number) : factor ∣ divisor - 1 := by
  have := Fact.mk divisorPrime
  have := Fact.mk factorPrime
  let root : ZMod divisor := 2 ^ ((number - 1) / factor)
  have rootPower : root ^ factor = 1 := by
    rw [← pow_mul, Nat.div_mul_cancel (certified.factor_dvd factor mem),
      ← powerOfTwo_cast divides, certified.full_power, Nat.cast_one]
  have rootNeOne : root ≠ 1 := by
    intro rootIsOne
    have common : divisor ∣
        powerOfTwo number ((number - 1) / factor) + (number - 1) := by
      rw [← ZMod.natCast_eq_zero_iff, Nat.cast_add, powerOfTwo_cast divides,
        show (2 : ZMod divisor) ^ ((number - 1) / factor) = 1 from rootIsOne,
        ← Nat.cast_one, ← Nat.cast_add, ZMod.natCast_eq_zero_iff,
        Nat.add_sub_cancel' (Nat.le_of_lt certified.above_one)]
      exact divides
    exact divisorPrime.not_dvd_one
      (certified.partial_power factor mem ▸ Nat.dvd_gcd common divides)
  have rootNeZero : root ≠ 0 := by
    intro rootIsZero
    rw [rootIsZero, zero_pow factorPrime.ne_zero] at rootPower
    exact zero_ne_one rootPower
  rw [← orderOf_eq_prime rootPower rootNeOne]
  exact ZMod.orderOf_dvd_card_sub_one rootNeZero

theorem prime (factors : Finset Nat)
    (certified : PowersCertify number factors)
    (factorsPrime : ∀ factor ∈ factors, factor.Prime) : number.Prime := by
  by_contra composite
  let divisor := number.minFac
  have divisorPrime : divisor.Prime :=
    Nat.minFac_prime certified.above_one.ne'
  have productDivides : ∏ factor ∈ factors, factor ∣ divisor - 1 :=
    Finset.prod_primes_dvd _ (fun factor mem => (factorsPrime factor mem).prime)
      fun factor mem => certified.factor_dvd_pred mem (factorsPrime factor mem)
        divisorPrime (Nat.minFac_dvd number)
  have productBelow : ∏ factor ∈ factors, factor < divisor := by
    have := Nat.le_of_dvd (Nat.sub_pos_of_lt divisorPrime.one_lt) productDivides
    have := divisorPrime.one_lt
    omega
  have squareAtMost : divisor ^ 2 ≤ number :=
    Nat.minFac_sq_le_self (Nat.lt_of_succ_lt certified.above_one) composite
  have squareAbove := Nat.pow_lt_pow_left productBelow two_ne_zero
  have := certified.le_square
  omega

end PowersCertify

theorem Secp256k1.fieldPrime_prime : fieldPrime.Prime := by
  have first : Nat.Prime 107590001 :=
    PowersCertify.prime {53, 29, 7, 5} (by decide +kernel) (by norm_num)
  have second : Nat.Prime 7240687 :=
    PowersCertify.prime {1206781} (by decide +kernel) (by norm_num)
  have third : Nat.Prime 96557 := by norm_num
  have middle : Nat.Prime 255515944373312847190720520512484175977 :=
    PowersCertify.prime {107590001, 7240687, 96557} (by decide +kernel)
      (by simp [first, second, third])
  have large : Nat.Prime
      205115282021455665897114700593932402728804164701536103180137503955397371 :=
    PowersCertify.prime {255515944373312847190720520512484175977}
      (by decide +kernel) (by simp [middle])
  exact PowersCertify.prime
    {205115282021455665897114700593932402728804164701536103180137503955397371}
    (by decide +kernel) (by simp [large])

theorem Secp256k1.groupOrder_prime : groupOrder.Prime := by
  have first : Nat.Prime 297159362677 :=
    PowersCertify.prime {1627771} (by decide +kernel) (by norm_num)
  have second : Nat.Prime 545358713 :=
    PowersCertify.prime {28181} (by decide +kernel) (by norm_num)
  have middle : Nat.Prime 29047611873442575647497758179 :=
    PowersCertify.prime {297159362677, 545358713} (by decide +kernel)
      (by simp [first, second])
  have large : Nat.Prime 341948486974166000522343609283189 :=
    PowersCertify.prime {29047611873442575647497758179} (by decide +kernel)
      (by simp [middle])
  have third : Nat.Prime 44706919 :=
    PowersCertify.prime {9349} (by decide +kernel) (by norm_num)
  have fourth : Nat.Prime 120233 := by norm_num
  have otherLarge : Nat.Prime 174723607534414371449 :=
    PowersCertify.prime {44706919, 120233} (by decide +kernel)
      (by simp [third, fourth])
  exact PowersCertify.prime
    {341948486974166000522343609283189, 174723607534414371449}
    (by decide +kernel) (by simp [large, otherLarge])

end CoinSpend
