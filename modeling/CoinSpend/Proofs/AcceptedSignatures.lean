import CoinSpend.Ecdsa
import CoinSpend.Proofs.PointCount

/-!
# Signatures that are made are accepted

One equation between points ties a signature to the point of its nonce and to
the signer's point.  Signing solves it for the signature, and verification looks
for the nonce's point.  A nonce is always found, because one and two cannot both
fail.
-/

namespace CoinSpend

namespace Secp256k1

/-- The multiple of the generator by a non-zero scalar is not at infinity. -/
theorem exists_multiple_generator {scalar : Scalar} (nonzero : scalar ≠ 0) :
    ∃ point, Point.multiple scalar.val (.affine generator) = .affine point ∧
      point.OnCurve ∧
      Point.toGroup (.affine point) = scalar • groupGenerator := by
  have notInfinity : scalar • groupGenerator ≠ 0 :=
    smul_ne_zero nonzero groupGenerator_ne_zero
  obtain ⟨onCurve, view⟩ := Point.multiple_view scalar.val
    (Point.onCurve_affine.mpr generator_onCurve)
  cases multiple : Point.multiple scalar.val (.affine generator) with
  | infinity =>
      rw [multiple, Point.toGroup_infinity] at view
      exact absurd view.symm notInfinity
  | affine point =>
      rw [multiple] at onCurve view
      exact ⟨point, rfl, onCurve, view⟩

theorem linearCombination_view (ofGenerator ofPoint : Scalar)
    {point : AffinePoint} (onCurve : point.OnCurve) :
    (linearCombination ofGenerator ofPoint point).OnCurve ∧
      (linearCombination ofGenerator ofPoint point).toGroup =
        ofGenerator • groupGenerator +
          ofPoint • Point.toGroup (.affine point) := by
  obtain ⟨firstOn, firstView⟩ := Point.multiple_view ofGenerator.val
    (Point.onCurve_affine.mpr generator_onCurve)
  obtain ⟨secondOn, secondView⟩ := Point.multiple_view ofPoint.val
    (Point.onCurve_affine.mpr onCurve)
  obtain ⟨sumOn, sumView⟩ := Point.add_view _ _ firstOn secondOn
  rw [firstView, secondView] at sumView
  exact ⟨sumOn, sumView⟩

theorem linearCombination_eq_affine_iff {ofGenerator ofPoint : Scalar}
    {point result : AffinePoint} (onCurve : point.OnCurve) :
    linearCombination ofGenerator ofPoint point = .affine result ↔
      result.OnCurve ∧ Point.toGroup (.affine result) =
        ofGenerator • groupGenerator +
          ofPoint • Point.toGroup (.affine point) := by
  obtain ⟨combinedOn, combinedView⟩ :=
    linearCombination_view ofGenerator ofPoint onCurve
  constructor
  · intro combined
    rw [combined] at combinedOn combinedView
    exact ⟨combinedOn, combinedView⟩
  · rintro ⟨resultOn, resultView⟩
    exact Point.toGroup_injective combinedOn resultOn
      (combinedView.trans resultView.symm)

/-- Dividing an equation between points by a scalar. -/
theorem eq_divided_combination_iff {divisor ofGenerator ofPoint : Scalar}
    (nonzero : divisor ≠ 0) {element point : curve.Point} :
    element = (ofGenerator * inverse divisor) • groupGenerator +
        (ofPoint * inverse divisor) • point ↔
      divisor • element = ofGenerator • groupGenerator + ofPoint • point := by
  have cancels := mul_inverse groupOrder_prime nonzero
  rw [mul_comm ofGenerator, mul_comm ofPoint, mul_smul, mul_smul, ← smul_add]
  constructor
  · intro solved
    rw [solved, smul_smul, cancels, one_smul]
  · intro balance
    rw [← balance, smul_smul, mul_comm, cancels, one_smul]

theorem opposite_view {point : AffinePoint} (onCurve : point.OnCurve) :
    AffinePoint.OnCurve ⟨point.x, -point.y⟩ ∧
      Point.toGroup (.affine ⟨point.x, -point.y⟩) =
        -Point.toGroup (.affine point) := by
  have oppositeOn : AffinePoint.OnCurve ⟨point.x, -point.y⟩ := by
    change -point.y * -point.y = cubic point.x
    rw [neg_mul_neg]
    exact onCurve
  refine ⟨oppositeOn, ?_⟩
  rw [Point.toGroup_affine onCurve, Point.toGroup_affine oppositeOn,
    WeierstrassCurve.Affine.Point.neg_some,
    WeierstrassCurve.Affine.Point.some.injEq, Point.negY_eq]
  exact ⟨rfl, rfl⟩

/-- The two points over a first coordinate have recovery numbers that differ in
the parity bit. -/
theorem recoveryIdOf_opposite {point : AffinePoint} (onCurve : point.OnCurve) :
    recoveryIdOf ⟨point.x, -point.y⟩ = recoveryIdOf point ^^^ 1 := by
  have nonzero : point.y ≠ 0 := by
    intro zero
    unfold AffinePoint.OnCurve at onCurve
    rw [zero, mul_zero] at onCurve
    exact cubic_ne_zero point.x onCurve.symm
  have parities := odd_neg nonzero
  have flips : (-point.y).val % 2 = 1 - point.y.val % 2 := by omega
  unfold recoveryIdOf
  rw [flips]
  rcases Nat.mod_two_eq_zero_or_one point.y.val with even | odd
  · rw [even]
    split <;> rfl
  · rw [odd]
    split <;> rfl

/-- The equation that signing solves: `s` times the point of the nonce is the
number of the digest times the generator, plus `r` times the signer's point.
Here `r` is the first coordinate of the nonce's point as a scalar. -/
structure SigningEquation (r s number : Scalar) (signer nonce : AffinePoint) :
    Prop where
  onCurve : nonce.OnCurve
  r_eq : Fin.ofNat groupOrder nonce.x.val = r
  balance : s • Point.toGroup (.affine nonce) =
    number • groupGenerator + r • Point.toGroup (.affine signer)

theorem SigningEquation.opposite {r s number : Scalar}
    {signer nonce : AffinePoint}
    (equation : SigningEquation r s number signer nonce) :
    SigningEquation r (-s) number signer ⟨nonce.x, -nonce.y⟩ := by
  obtain ⟨oppositeOn, oppositeView⟩ := opposite_view equation.onCurve
  refine ⟨oppositeOn, equation.r_eq, ?_⟩
  rw [oppositeView, neg_smul_neg]
  exact equation.balance

end Secp256k1

open Secp256k1

theorem PrivateKey.publicPoint_view (key : PrivateKey) :
    key.publicPoint.OnCurve ∧
      Point.toGroup (.affine key.publicPoint) =
        key.secret • groupGenerator := by
  obtain ⟨point, multiple, onCurve, view⟩ :=
    exists_multiple_generator key.secret_ne_zero
  unfold publicPoint
  rw [multiple]
  exact ⟨onCurve, view⟩

/-- Verification finds out whether some nonce satisfies the equation. -/
theorem PublicKey.verify_eq_true_iff {key : PublicKey}
    (keyOn : key.point.OnCurve) {digest : Digest} {signature : Signature} :
    key.verify digest signature = true ↔
      ∃ nonce, SigningEquation signature.r signature.s digest.scalar key.point
        nonce := by
  unfold PublicKey.verify
  constructor
  · intro accepted
    simp only at accepted
    split at accepted
    · cases accepted
    · rename_i nonce combined
      obtain ⟨nonceOn, view⟩ :=
        (linearCombination_eq_affine_iff keyOn).mp combined
      have balance :=
        (eq_divided_combination_iff signature.s_ne_zero).mp view
      exact ⟨nonce, nonceOn, beq_iff_eq.mp accepted, balance⟩
  · rintro ⟨nonce, nonceOn, xEq, balance⟩
    have combined := (linearCombination_eq_affine_iff keyOn).mpr
      ⟨nonceOn, (eq_divided_combination_iff signature.s_ne_zero).mpr balance⟩
    simp only [combined]
    exact beq_iff_eq.mpr xEq

/-- The recovery number has no part in verification. -/
theorem PublicKey.verify_set_recoveryId (key : PublicKey) (digest : Digest)
    (signature : Signature) (recoveryId : Option (Fin 4)) :
    key.verify digest { signature with recoveryId } =
      key.verify digest signature := by
  unfold PublicKey.verify
  dsimp only

/-- Bringing the second scalar into the lower half keeps the equation, and the
recovery number goes along. -/
theorem Signature.exists_signingEquation_normalized {r s number : Scalar}
    {signer nonce : AffinePoint}
    (equation : SigningEquation r s number signer nonce) (rNonzero : r ≠ 0)
    (sNonzero : s ≠ 0) {signature : Signature}
    (signatureEq : signature = Signature.normalized r s
      (some (recoveryIdOf nonce)) rNonzero sNonzero) :
    ∃ point, SigningEquation signature.r signature.s number signer point ∧
      signature.recoveryId = some (recoveryIdOf point) := by
  unfold Signature.normalized at signatureEq
  split at signatureEq
  · subst signatureEq
    exact ⟨nonce, equation, rfl⟩
  · subst signatureEq
    refine ⟨⟨nonce.x, -nonce.y⟩, equation.opposite, ?_⟩
    rw [recoveryIdOf_opposite equation.onCurve]
    rfl

/-- What a nonce in the range signs. -/
theorem signWithNonce_of_multiple {number secret nonce : Scalar}
    (nonceNonzero : nonce ≠ 0) {point : AffinePoint}
    (multiple : Point.multiple nonce.val (.affine generator) = .affine point) :
    signWithNonce number secret nonce.val =
      let r := Fin.ofNat groupOrder point.x.val
      let s := inverse nonce * (number + r * secret)
      if nonzero : r ≠ 0 ∧ s ≠ 0 then
        some (Signature.normalized r s (some (recoveryIdOf point))
          nonzero.1 nonzero.2)
      else none := by
  have positive : nonce.val ≠ 0 := fun isZero => nonceNonzero (Fin.ext isZero)
  have inRange : ¬ (nonce.val = 0 ∨ groupOrder ≤ nonce.val) := by
    have := nonce.isLt
    omega
  unfold signWithNonce
  rw [if_neg inRange, multiple]
  simp only [Fin.ofNat_val_eq_self]

/-- Whatever the nonce, the signature satisfies the equation with a point that
its recovery number tells. -/
theorem exists_signingEquation_of_signWithNonce {number secret : Scalar}
    {nonce : Nat} {signature : Signature} {signer : AffinePoint}
    (signerView : Point.toGroup (.affine signer) = secret • groupGenerator)
    (signed : signWithNonce number secret nonce = some signature) :
    ∃ point, SigningEquation signature.r signature.s number signer point ∧
      signature.recoveryId = some (recoveryIdOf point) := by
  have inRange : ¬ (nonce = 0 ∨ groupOrder ≤ nonce) := by
    intro outside
    rw [signWithNonce, if_pos outside] at signed
    cases signed
  let scalar : Scalar := ⟨nonce, by omega⟩
  have nonceNonzero : scalar ≠ 0 :=
    fun isZero => inRange (.inl (congrArg Fin.val isZero))
  obtain ⟨point, multiple, pointOn, pointView⟩ :=
    exists_multiple_generator nonceNonzero
  change signWithNonce number secret scalar.val = some signature at signed
  rw [signWithNonce_of_multiple nonceNonzero multiple] at signed
  simp only at signed
  split at signed
  · injection signed with signed
    refine Signature.exists_signingEquation_normalized
      ⟨pointOn, rfl, ?_⟩ _ _ signed.symm
    rw [pointView, signerView, smul_smul, smul_smul, ← add_smul,
      mul_comm, ← mul_assoc, mul_inverse groupOrder_prime nonceNonzero,
      one_mul]
  · cases signed

theorem searchNonce_eq_some {attempt : Nat → Option Signature} {fuel : Nat}
    {source : NonceSource} {signature : Signature}
    (found : searchNonce attempt fuel source = some signature) :
    ∃ nonce, attempt nonce = some signature := by
  induction fuel generalizing source with
  | zero => cases found
  | succ fuel ih =>
      rw [searchNonce] at found
      cases tried : attempt source.candidate with
      | none =>
          rw [tried] at found
          exact ih found
      | some first =>
          rw [tried] at found
          exact ⟨source.candidate, tried.trans found⟩

/-- A longer search finds what a shorter one found. -/
theorem searchNonce_eq_some_of_le {attempt : Nat → Option Signature}
    {fuel limit : Nat} {source : NonceSource} {signature : Signature}
    (found : searchNonce attempt fuel source = some signature)
    (le : fuel ≤ limit) :
    searchNonce attempt limit source = some signature := by
  induction fuel generalizing source limit with
  | zero => cases found
  | succ fuel ih =>
      obtain ⟨limit, rfl⟩ := Nat.exists_eq_add_of_lt le
      rw [searchNonce] at found ⊢
      cases tried : attempt source.candidate with
      | none =>
          rw [tried] at found
          exact ih found (Nat.le_add_right fuel limit)
      | some first =>
          rw [tried] at found
          exact found

theorem multiple_one_generator :
    Point.multiple (1 : Scalar).val (.affine generator) =
      .affine generator := by
  decide +kernel

/-- Twice the generator. -/
def doubledGenerator : AffinePoint where
  x := 0xc6047f9441ed7d6d3045406e95c07cd85c778e4b8cef3ca7abac09b95c709ee5
  y := 0x1ae168fea63dc339a3c58419466ceaeef7f632653266d0e1236431a950cfe52a

theorem multiple_two_generator :
    Point.multiple (2 : Scalar).val (.affine generator) =
      .affine doubledGenerator := by
  decide +kernel

theorem equation_of_rejected {number secret nonce r : Scalar}
    (nonceNonzero : nonce ≠ 0) {point : AffinePoint}
    (multiple : Point.multiple nonce.val (.affine generator) = .affine point)
    (rEq : Fin.ofNat groupOrder point.x.val = r) (rNonzero : r ≠ 0)
    (rejected : signWithNonce number secret nonce.val = none) :
    number + r * secret = 0 := by
  have inverseNonzero : inverse nonce ≠ 0 := by
    intro isZero
    have cancels := mul_inverse groupOrder_prime nonceNonzero
    rw [isZero, mul_zero] at cancels
    exact zero_ne_one cancels
  rw [signWithNonce_of_multiple nonceNonzero multiple] at rejected
  simp only [rEq] at rejected
  split at rejected
  · cases rejected
  · rename_i vanishes
    by_contra sumNonzero
    exact vanishes ⟨rNonzero, mul_ne_zero inverseNonzero sumNonzero⟩

/-- Were the nonces one and two both rejected, the secret would be zero. -/
theorem exists_signWithNonce_small (number : Scalar) {secret : Scalar}
    (secretNonzero : secret ≠ 0) :
    ∃ nonce signature, signWithNonce number secret nonce = some signature ∧
      (signWithNonce number secret 1).or (signWithNonce number secret 2) =
        some signature := by
  cases first : signWithNonce number secret 1 with
  | some signature => exact ⟨1, signature, first, rfl⟩
  | none =>
      cases second : signWithNonce number secret 2 with
      | some signature => exact ⟨2, signature, second, rfl⟩
      | none =>
          have firstEquation := equation_of_rejected (by decide)
            multiple_one_generator rfl (by decide) first
          have secondEquation := equation_of_rejected (by decide)
            multiple_two_generator rfl (by decide) second
          have distinct : Fin.ofNat groupOrder generator.x.val -
              Fin.ofNat groupOrder doubledGenerator.x.val ≠ 0 := by
            decide
          have vanishes : (Fin.ofNat groupOrder generator.x.val -
              Fin.ofNat groupOrder doubledGenerator.x.val) * secret = 0 := by
            linear_combination firstEquation - secondEquation
          rcases mul_eq_zero.mp vanishes with same | secretZero
          · exact absurd same distinct
          · exact absurd secretZero secretNonzero

namespace PrivateKey

variable (key : PrivateKey) (limit : Nat) (source : NonceSource)
  (digest : Digest)

theorem signFrom_eq_signWithNonce :
    ∃ nonce, signWithNonce digest.scalar key.secret nonce =
      some (key.signFrom limit source digest) := by
  obtain ⟨nonce, small, signed, smallEq⟩ :=
    exists_signWithNonce_small digest.scalar key.secret_ne_zero
  simp only [signFrom, smallEq]
  cases searched : searchNonce (signWithNonce digest.scalar key.secret) limit
      source with
  | some signature => exact searchNonce_eq_some searched
  | none => exact ⟨nonce, signed⟩

/-- Once a candidate serves, the limit no longer matters: signing without a
limit gives the same signature. -/
theorem signFrom_eq_of_searchNonce {fuel limit : Nat} {source : NonceSource}
    {signature : Signature}
    (found : searchNonce (signWithNonce digest.scalar key.secret) fuel source =
      some signature) (le : fuel ≤ limit) :
    key.signFrom limit source digest = signature := by
  simp only [signFrom, searchNonce_eq_some_of_le found le, Option.some_or,
    Option.getD_some]

/-- Neither the limit nor the generator has a part in this. -/
theorem exists_signingEquation_signFrom :
    ∃ point,
      SigningEquation (key.signFrom limit source digest).r
        (key.signFrom limit source digest).s digest.scalar key.publicPoint
        point ∧
      (key.signFrom limit source digest).recoveryId =
        some (recoveryIdOf point) := by
  obtain ⟨nonce, signed⟩ := key.signFrom_eq_signWithNonce limit source digest
  exact exists_signingEquation_of_signWithNonce key.publicPoint_view.2 signed

theorem exists_signingEquation_sign :
    ∃ point, SigningEquation (key.sign digest).r (key.sign digest).s
        digest.scalar key.publicPoint point ∧
      (key.sign digest).recoveryId = some (recoveryIdOf point) :=
  key.exists_signingEquation_signFrom _ _ digest

theorem verify_signFrom :
    key.publicKey.verify digest (key.signFrom limit source digest) = true := by
  obtain ⟨nonce, equation, -⟩ :=
    key.exists_signingEquation_signFrom limit source digest
  exact (PublicKey.verify_eq_true_iff key.publicPoint_view.1).mpr
    ⟨nonce, equation⟩

theorem verify_sign :
    key.publicKey.verify digest (key.sign digest) = true :=
  key.verify_signFrom _ _ digest

end PrivateKey

end CoinSpend
