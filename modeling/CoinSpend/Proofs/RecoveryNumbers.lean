import CoinSpend.Proofs.ObtainedSignatures
import CoinSpend.Proofs.RecoveredKeys

/-!
# The recovery number of a key

A signature of a digest and a signer leave one point for the nonce, and the
point has one recovery number.  So each key that accepts a signature is
recovered with exactly one number, and different numbers recover different keys.
-/

namespace CoinSpend

open Secp256k1

/-- The signing equation has one solution for the point of the nonce. -/
theorem Secp256k1.SigningEquation.nonce_unique {r s number : Scalar}
    {signer nonce otherNonce : AffinePoint} (nonzero : s ≠ 0)
    (equation : SigningEquation r s number signer nonce)
    (otherEquation : SigningEquation r s number signer otherNonce) :
    nonce = otherNonce := by
  have multiplesEq : s • Point.toGroup (.affine nonce) =
      s • Point.toGroup (.affine otherNonce) :=
    equation.balance.trans otherEquation.balance.symm
  have sameElement := smul_right_injective curve.Point nonzero multiplesEq
  exact Point.affine.inj (Point.toGroup_injective
    (Point.onCurve_affine.mpr equation.onCurve)
    (Point.onCurve_affine.mpr otherEquation.onCurve) sameElement)

namespace Signature

/-- The key that a signature with the given recovery number was made for. -/
def recoverAs (signature : Signature) (number : UInt8) (digest : Digest) :
    Except Error PublicKey := do
  (← signature.withRecoveryId number).recover digest

variable {signature : Signature} {digest : Digest}

theorem recoverAs_eq_ok_iff {number : UInt8} {key : PublicKey} :
    signature.recoverAs number digest = .ok key ↔
      key.compressed = false ∧ key.point.OnCurve ∧
        ∃ nonce, SigningEquation signature.r signature.s digest.scalar
            key.point nonce ∧
          number = UInt8.ofNat (recoveryIdOf nonce).val := by
  simp only [recoverAs, withRecoveryId, Error.bind_eq_ok_iff,
    checkedRecoveryId_eq_ok_iff]
  constructor
  · rintro ⟨numbered, ⟨recoveryId, numberEq, returned⟩, recovered⟩
    cases returned
    obtain ⟨uncompressed, keyOn, nonce, equation, idEq⟩ :=
      recover_eq_ok_iff.mp recovered
    refine ⟨uncompressed, keyOn, nonce, equation, ?_⟩
    rw [numberEq, Option.some.inj idEq]
  · rintro ⟨uncompressed, keyOn, nonce, equation, numberEq⟩
    exact ⟨_, ⟨recoveryIdOf nonce, numberEq, rfl⟩,
      recover_eq_ok_iff.mpr ⟨uncompressed, keyOn, nonce, equation, rfl⟩⟩

/-- A key accepts a signature exactly if one of the recovery numbers recovers
it, and then only one does. -/
theorem existsUnique_recoverAs_iff {key : PublicKey}
    (keyOn : key.point.OnCurve) :
    (∃! number, signature.recoverAs number digest =
        .ok (key.withCompression false)) ↔
      key.verify digest signature = true := by
  rw [PublicKey.verify_eq_true_iff keyOn]
  constructor
  · rintro ⟨number, recovered, -⟩
    obtain ⟨-, -, nonce, equation, -⟩ := recoverAs_eq_ok_iff.mp recovered
    exact ⟨nonce, equation⟩
  · rintro ⟨nonce, equation⟩
    refine ⟨_, recoverAs_eq_ok_iff.mpr ⟨rfl, keyOn, nonce, equation, rfl⟩, ?_⟩
    intro number recovered
    obtain ⟨-, -, otherNonce, otherEquation, rfl⟩ :=
      recoverAs_eq_ok_iff.mp recovered
    rw [equation.nonce_unique signature.s_ne_zero otherEquation]

theorem verify_of_recoverAs {number : UInt8} {key : PublicKey}
    (recovered : signature.recoverAs number digest = .ok key) :
    key.point.OnCurve ∧ key.withCompression false = key ∧
      key.verify digest signature = true := by
  obtain ⟨uncompressed, keyOn, nonce, equation, -⟩ :=
    recoverAs_eq_ok_iff.mp recovered
  refine ⟨keyOn, ?_, (PublicKey.verify_eq_true_iff keyOn).mpr ⟨nonce, equation⟩⟩
  rw [PublicKey.withCompression, ← uncompressed]

theorem number_eq_of_point_eq {first second : UInt8}
    {firstKey secondKey : PublicKey}
    (firstRecovered : signature.recoverAs first digest = .ok firstKey)
    (secondRecovered : signature.recoverAs second digest = .ok secondKey)
    (samePoint : firstKey.point = secondKey.point) : first = second := by
  obtain ⟨firstOn, firstForm, accepted⟩ := verify_of_recoverAs firstRecovered
  obtain ⟨-, secondForm, -⟩ := verify_of_recoverAs secondRecovered
  have sameKey : secondKey = firstKey := by
    rw [← firstForm, ← secondForm, PublicKey.withCompression,
      PublicKey.withCompression, samePoint]
  rw [sameKey, ← firstForm] at secondRecovered
  rw [← firstForm] at firstRecovered
  exact ((existsUnique_recoverAs_iff firstOn).mpr accepted).unique
    firstRecovered secondRecovered

theorem recoverAs_sign_iff {key : PrivateKey} {number : UInt8} :
    (∃ recovered, (key.sign digest).recoverAs number digest = .ok recovered ∧
        recovered.point = key.publicKey.point) ↔
      (key.sign digest).recoveryId.map (fun id => UInt8.ofNat id.val) =
        some number := by
  obtain ⟨nonce, equation, idEq⟩ := key.exists_signingEquation_sign digest
  have ownRecovered : (key.sign digest).recoverAs
      (UInt8.ofNat (recoveryIdOf nonce).val) digest =
        .ok (key.publicKey.withCompression false) :=
    recoverAs_eq_ok_iff.mpr
      ⟨rfl, key.publicPoint_view.1, nonce, equation, rfl⟩
  rw [idEq, Option.map_some, Option.some.injEq]
  constructor
  · rintro ⟨recovered, numberRecovered, samePoint⟩
    exact number_eq_of_point_eq ownRecovered numberRecovered samePoint.symm
  · rintro rfl
    exact ⟨_, ownRecovered, rfl⟩

/-- Different recovery numbers recover different points from one signature.  A
signature that was made with a key recovers the key's point with its own number
and with no other. -/
theorem recoverAs_points_differ :
    (∀ (signature : Signature) (digest : Digest) (first second : UInt8)
        (firstKey secondKey : PublicKey), first ≠ second →
      signature.recoverAs first digest = .ok firstKey →
      signature.recoverAs second digest = .ok secondKey →
        firstKey.point ≠ secondKey.point) ∧
    ∀ (key : PrivateKey) (digest : Digest) (number : UInt8),
      (∃ recovered, (key.sign digest).recoverAs number digest =
          .ok recovered ∧ recovered.point = key.publicKey.point) ↔
        (key.sign digest).recoveryId.map (fun id => UInt8.ofNat id.val) =
          some number :=
  ⟨fun _ _ _ _ _ _ different firstRecovered secondRecovered samePoint =>
      different
        (number_eq_of_point_eq firstRecovered secondRecovered samePoint),
    fun _ _ _ => recoverAs_sign_iff⟩

/-- A signature with a point over its first scalar and another one over the
scalar plus the order. -/
theorem recoverAs_points_differ_of_wrapped_coordinate :
    let digest : Digest := FixedBytes.ofNat 32 groupOrder
    let signature : Signature :=
      ⟨2, 2, none, by decide, by decide, by decide⟩
    ∃ plain wrapped : PublicKey,
      signature.recoverAs 1 digest = .ok plain ∧
        signature.recoverAs 2 digest = .ok wrapped ∧
        plain.point.x.val = 2 ∧ wrapped.point.x.val = groupOrder + 2 ∧
        plain.point ≠ wrapped.point := by
  intro digest signature
  let plain : AffinePoint :=
    ⟨2, 0x990418d84d45f61f60a56728f5a10317bdb3a05bda4425e3aee079f8a847a8d1⟩
  let wrapped : AffinePoint :=
    ⟨0xfffffffffffffffffffffffffffffffebaaedce6af48a03bbfd25e8cd0364143,
      0xc94e559d14883e68cfda34341568bf1127153254788dd974c6af9bb9cd962a5c⟩
  have plainRecovered : signature.recoverAs 1 digest = .ok ⟨plain, false⟩ := by
    decide +kernel
  have wrappedRecovered :
      signature.recoverAs 2 digest = .ok ⟨wrapped, false⟩ := by
    decide +kernel
  exact ⟨_, _, plainRecovered, wrappedRecovered, rfl, rfl,
    recoverAs_points_differ.1 signature digest 1 2 _ _ (by decide)
      plainRecovered wrappedRecovered⟩

end Signature

end CoinSpend
