import CoinSpend.Proofs.AcceptedSignatures

/-!
# Recovering the signer

The first scalar of a signature and its recovery number determine the point of
the nonce.  With that point the signing equation has one solution for the
signer, which recovery computes.
-/

namespace CoinSpend

open Secp256k1

namespace Secp256k1

theorem val_recoveryIdOf (point : AffinePoint) :
    (recoveryIdOf point).val =
      (if groupOrder ≤ point.x.val then 2 else 0) + point.y.val % 2 := by
  unfold recoveryIdOf
  apply Nat.mod_eq_of_lt
  split <;> omega

theorem parity_eq_iff {first second : Nat} :
    (first % 2 == 1) = (second % 2 == 1) ↔ first % 2 = second % 2 := by
  rw [Bool.eq_iff_iff, beq_iff_eq, beq_iff_eq]
  omega

/-- A coordinate is less than twice the order, so one bit is enough to know it
from its remainder. -/
theorem val_of_mod_order {x : Coordinate} {r : Scalar}
    (remainder : Fin.ofNat groupOrder x.val = r) :
    x.val = if groupOrder ≤ x.val then r.val + groupOrder else r.val := by
  subst remainder
  have bound := x.isLt
  have twice : fieldPrime < 2 * groupOrder := by decide
  change _ = if groupOrder ≤ x.val then x.val % groupOrder + groupOrder
    else x.val % groupOrder
  split
  · rw [Nat.mod_eq_sub_mod ‹_›, Nat.mod_eq_of_lt (by omega)]
    omega
  · rw [Nat.mod_eq_of_lt (by omega)]

/-- The points that are found are those of the curve over the given scalar with
the given recovery number. -/
theorem noncePoint?_eq_some_iff {r : Scalar} {recoveryId : Fin 4}
    {point : AffinePoint} :
    noncePoint? r recoveryId = some point ↔
      point.OnCurve ∧ Fin.ofNat groupOrder point.x.val = r ∧
        recoveryIdOf point = recoveryId := by
  unfold noncePoint?
  constructor
  · intro found
    simp only at found
    -- The high bit of the recovery number chooses between the scalar and the
    -- scalar plus the order, the only two candidates for the coordinate.
    generalize numberEq : (if recoveryId.val < 2 then r.val
      else r.val + groupOrder) = number at found
    split at found
    · obtain ⟨xEq, parity, onCurve⟩ := pointAt?_eq_some found
      have xValue : point.x.val = number := congrArg Fin.val xEq
      have idBound := recoveryId.isLt
      have rBound := r.isLt
      rw [← numberEq] at xValue
      rw [parity_eq_iff] at parity
      refine ⟨onCurve, Fin.ext ?_, Fin.ext ?_⟩
      · change point.x.val % groupOrder = r.val
        rw [xValue]
        split
        · exact Nat.mod_eq_of_lt rBound
        · rw [Nat.add_mod_right, Nat.mod_eq_of_lt rBound]
      · rw [val_recoveryIdOf, xValue, parity]
        by_cases low : recoveryId.val < 2
        · rw [if_pos low, if_neg (Nat.not_le.mpr rBound)]
          omega
        · rw [if_neg low, if_pos (Nat.le_add_left _ _)]
          omega
    · contradiction
  · rintro ⟨onCurve, xEq, rfl⟩
    have bit := val_recoveryIdOf point
    have number : (if (recoveryIdOf point).val < 2 then r.val
        else r.val + groupOrder) = point.x.val := by
      rw [val_of_mod_order xEq]
      split at bit
      · rw [if_neg (by omega), if_pos ‹_›]
      · rw [if_pos (by omega), if_neg ‹_›]
    have parity : ((recoveryIdOf point).val % 2 == 1) =
        (point.y.val % 2 == 1) := by
      rw [parity_eq_iff]
      split at bit <;> omega
    simp only [number, parity, Fin.is_lt, dif_pos, Fin.eta]
    exact pointAt?_of_onCurve onCurve

/-- The signing equation solved for the signer. -/
theorem signer_eq_combination_iff {r s number : Scalar} (nonzero : r ≠ 0)
    {signer nonce : curve.Point} :
    signer = (-(number * inverse r)) • groupGenerator +
        (s * inverse r) • nonce ↔
      s • nonce = number • groupGenerator + r • signer := by
  rw [← neg_mul, eq_divided_combination_iff nonzero, neg_smul,
    eq_neg_add_iff_add_eq, eq_comm]

end Secp256k1

namespace Signature

/-- Recovery succeeds with the one key for which the point that the recovery
number tells satisfies the signing equation. -/
theorem recover_eq_ok_iff {signature : Signature} {digest : Digest}
    {key : PublicKey} :
    signature.recover digest = .ok key ↔
      key.compressed = false ∧ key.point.OnCurve ∧
        ∃ nonce, SigningEquation signature.r signature.s digest.scalar
            key.point nonce ∧
          signature.recoveryId = some (recoveryIdOf nonce) := by
  unfold recover
  constructor
  · intro recovered
    cases idEq : signature.recoveryId with
    | none =>
        rw [idEq] at recovered
        contradiction
    | some recoveryId =>
        cases found : noncePoint? signature.r recoveryId with
        | none =>
            simp only [idEq, found] at recovered
            contradiction
        | some nonce =>
            obtain ⟨nonceOn, xEq, rfl⟩ := noncePoint?_eq_some_iff.mp found
            simp only [idEq, found] at recovered
            split at recovered
            · cases recovered
            · rename_i signer combined
              cases recovered
              obtain ⟨signerOn, view⟩ :=
                (linearCombination_eq_affine_iff nonceOn).mp combined
              have balance :=
                (signer_eq_combination_iff signature.r_ne_zero).mp view
              exact ⟨rfl, signerOn, nonce, ⟨nonceOn, xEq, balance⟩, rfl⟩
  · rintro ⟨uncompressed, signerOn, nonce, ⟨nonceOn, xEq, balance⟩, idEq⟩
    have found := noncePoint?_eq_some_iff.mpr ⟨nonceOn, xEq, rfl⟩
    have combined := (linearCombination_eq_affine_iff nonceOn).mpr
      ⟨signerOn, (signer_eq_combination_iff signature.r_ne_zero).mpr balance⟩
    simp only [idEq, found, combined, ← uncompressed]

end Signature

namespace PublicKey

theorem verify_withCompression (key : PublicKey) (compressed : Bool)
    (digest : Digest) (signature : Signature) :
    (key.withCompression compressed).verify digest signature =
      key.verify digest signature := by
  unfold verify withCompression
  dsimp only

/-- Whatever recovery returns passes verification. -/
theorem verify_of_recover {key : PublicKey} {digest : Digest}
    {signature : Signature} (recovered : signature.recover digest = .ok key) :
    key.verify digest signature = true := by
  obtain ⟨-, keyOn, nonce, equation, -⟩ :=
    Signature.recover_eq_ok_iff.mp recovered
  exact (verify_eq_true_iff keyOn).mpr ⟨nonce, equation⟩

end PublicKey

namespace PrivateKey

variable (key : PrivateKey)

theorem recover_signFrom (limit : Nat) (source : NonceSource)
    (digest : Digest) :
    (key.signFrom limit source digest).recover digest =
      .ok (key.publicKey.withCompression false) :=
  Signature.recover_eq_ok_iff.mpr
    ⟨rfl, key.publicPoint_view.1,
      key.exists_signingEquation_signFrom limit source digest⟩

theorem recover_sign (digest : Digest) :
    (key.sign digest).recover digest =
      .ok (key.publicKey.withCompression false) :=
  key.recover_signFrom _ _ digest

/-- Signing, verifying and recovering agree for every key and every digest,
whatever number the digest holds.  They agree for any other generator of nonces
too, and for any limit to how many of them are tried.  A signature that the
search comes to is the signature under every limit from there on, so it is the
one of a search without a limit. -/
theorem sign_verifies_and_recovers (digest : Digest) :
    key.publicKey.verify digest (key.sign digest) = true ∧
      (key.sign digest).recoveryId.isSome = true ∧
      (key.sign digest).recover digest =
        .ok (key.publicKey.withCompression false) ∧
      (∀ (limit : Nat) (source : NonceSource),
        key.publicKey.verify digest (key.signFrom limit source digest) = true ∧
          (key.signFrom limit source digest).recoveryId.isSome = true ∧
          (key.signFrom limit source digest).recover digest =
            .ok (key.publicKey.withCompression false)) ∧
      ∀ (fuel limit : Nat) (source : NonceSource) (signature : Signature),
        searchNonce (signWithNonce digest.scalar key.secret) fuel source =
            some signature →
          fuel ≤ limit → key.signFrom limit source digest = signature := by
  have numbered (limit : Nat) (source : NonceSource) :
      (key.signFrom limit source digest).recoveryId.isSome = true := by
    obtain ⟨nonce, -, idEq⟩ :=
      key.exists_signingEquation_signFrom limit source digest
    rw [idEq]
    rfl
  refine ⟨key.verify_sign digest, numbered _ _, key.recover_sign digest, ?_, ?_⟩
  · intro limit source
    exact ⟨key.verify_signFrom limit source digest, numbered limit source,
      key.recover_signFrom limit source digest⟩
  · intro fuel limit source signature found le
    exact key.signFrom_eq_of_searchNonce digest found le

/-- A digest above the order, and a generator whose first candidate is one. -/
theorem sign_verifies_and_recovers_of_unit_nonce :
    let key : PrivateKey := ⟨1, true, .mainnet, by decide⟩
    let digest : Digest := ⟨List.replicate 32 0xff, by decide⟩
    let source : NonceSource := ⟨[], bigEndian 32 1⟩
    ∃ signature,
      searchNonce (signWithNonce digest.scalar key.secret) 1 source =
          some signature ∧
        key.signFrom 3 source digest = signature ∧
        key.publicKey.verify digest signature = true ∧
        signature.recover digest =
          .ok (key.publicKey.withCompression false) := by
  intro key digest source
  have serves : (searchNonce (signWithNonce digest.scalar key.secret) 1
      source).isSome = true := by
    decide +kernel
  obtain ⟨signature, found⟩ := Option.isSome_iff_exists.mp serves
  obtain ⟨-, -, -, anyLimit, settled⟩ := key.sign_verifies_and_recovers digest
  have signed : key.signFrom 3 source digest = signature :=
    settled 1 3 source signature found (by decide)
  obtain ⟨verified, -, recovered⟩ := anyLimit 3 source
  rw [signed] at verified recovered
  exact ⟨signature, found, signed, verified, recovered⟩

end PrivateKey

end CoinSpend
