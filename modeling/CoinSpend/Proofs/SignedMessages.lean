import CoinSpend.Proofs.MessageSignatureTexts
import CoinSpend.Proofs.RecoveredKeys
import CoinSpend.Proofs.TextForms

/-!
# Signed messages name their signer

What is recovered from a message signature always verifies, so the last check of
recovery decides nothing.  The text that signing writes recovers to the key that
signed.  An address vouches for a message exactly if it holds the name of the
recovered key.
-/

namespace CoinSpend

/-- The check after recovery never fails. -/
theorem recoverMessageSigner_eq_recover (message : Bytes) (text : String) :
    recoverMessageSigner message text = do
      let signed ← MessageSignature.ofText text
      let recovered ← signed.signature.recover (messageDigest message)
      return recovered.withCompression signed.compressed := by
  unfold recoverMessageSigner
  -- Which digest is signed plays no part, and a variable is never computed.
  generalize messageDigest message = digest
  refine bind_congr fun signed => ?_
  cases recovery : signed.signature.recover digest with
  | error error => simp only [recovery, bind, Except.bind]
  | ok recovered =>
      have verified := PublicKey.verify_of_recover recovery
      simp only [recovery, bind, Except.bind,
        PublicKey.verify_withCompression, verified, if_true]

section Errors

theorem Signature.checkedScalar_ne_verificationFailed (part : SignaturePart)
    (number : Nat) :
    Signature.checkedScalar part number ≠ .error .verificationFailed := by
  unfold checkedScalar
  repeat' split
  all_goals simp

theorem Signature.ofCompactFields_ne_verificationFailed (bytes : Bytes)
    (recoveryId : Option (Fin 4)) :
    Signature.ofCompactFields bytes recoveryId ≠
      .error .verificationFailed := by
  unfold ofCompactFields ofNumbers
  split
  · simp only [ne_eq, Error.bind_eq_error_iff, Error.pure_ne_error,
      checkedScalar_ne_verificationFailed, and_false, exists_false, or_self,
      not_false_eq_true]
  · simp

theorem Signature.recover_ne_verificationFailed (signature : Signature)
    (digest : Digest) :
    signature.recover digest ≠ .error .verificationFailed := by
  unfold recover
  dsimp only
  repeat' split
  all_goals simp

theorem MessageSignature.ofText_ne_verificationFailed (text : String) :
    MessageSignature.ofText text ≠ .error .verificationFailed := by
  intro failed
  simp only [ofText, Error.bind_eq_error_iff,
    Error.mapError_eq_error_iff] at failed
  rcases failed with ⟨fault, -, wrong⟩ | ⟨bytes, -, failed⟩
  · contradiction
  · cases bytes with
    | nil => contradiction
    | cons header scalars =>
        simp only [Error.bind_eq_error_iff, Error.check_eq_error_iff,
          Error.pure_ne_error,
          Signature.ofCompactFields_ne_verificationFailed, reduceCtorEq,
          and_false, exists_false, or_self] at failed

theorem Base58Check.decode_ne_verificationFailed (text : String) :
    Base58Check.decode text ≠ .error .verificationFailed := by
  intro failed
  simp only [decode, Error.bind_eq_error_iff, Error.mapError_eq_error_iff,
    Error.check_eq_error_iff, reduceCtorEq, and_false, exists_false,
    false_or] at failed
  obtain ⟨bytes, -, -, -, failed⟩ := failed
  split at failed
  all_goals
    simp only [Error.throw_eq_error_iff, Error.pure_ne_error,
      reduceCtorEq] at failed

theorem Address.ofText_ne_verificationFailed (text : String) :
    Address.ofText text ≠ .error .verificationFailed := by
  intro failed
  simp only [ofText, Error.bind_eq_error_iff,
    Base58Check.decode_ne_verificationFailed, false_or] at failed
  obtain ⟨⟨version, payload⟩, -, failed⟩ := failed
  simp only at failed
  repeat' split at failed
  all_goals
    simp only [Error.throw_eq_error_iff, Error.pure_ne_error,
      reduceCtorEq] at failed

theorem recoverMessageSigner_ne_verificationFailed (message : Bytes)
    (text : String) :
    recoverMessageSigner message text ≠ .error .verificationFailed := by
  rw [recoverMessageSigner_eq_recover]
  simp only [ne_eq, Error.bind_eq_error_iff,
    MessageSignature.ofText_ne_verificationFailed,
    Signature.recover_ne_verificationFailed, Error.pure_ne_error, and_false,
    exists_false, or_self, not_false_eq_true]

end Errors

/-- A recovered key verifies the signature it was recovered from, whichever way
the signature was made, so that a message is never refused by that check. -/
theorem recovered_key_verifies :
    (∀ (signature : Signature) (digest : Digest) (key : PublicKey),
      signature.recover digest = .ok key →
        signature.s.val ≤ Secp256k1.halfOrder ∧
          ∀ compressed, (key.withCompression compressed).verify digest
            signature = true) ∧
      (∀ message text, recoverMessageSigner message text ≠
        .error .verificationFailed) ∧
      ∀ addressText message text, verifyMessage addressText message text ≠
        .error .verificationFailed := by
  refine ⟨?_, recoverMessageSigner_ne_verificationFailed, ?_⟩
  · intro signature digest key recovered
    refine ⟨signature.s_low, fun compressed => ?_⟩
    rw [PublicKey.verify_withCompression]
    exact PublicKey.verify_of_recover recovered
  · intro addressText message text
    simp only [verifyMessage, ne_eq, Error.bind_eq_error_iff,
      Address.ofText_ne_verificationFailed,
      recoverMessageSigner_ne_verificationFailed, Error.pure_ne_error,
      and_false, exists_false, or_self, not_false_eq_true]

/-- The point over the first coordinate two above the order, which is one of a
signature's points with the scalar two. -/
def wrappedPoint : Secp256k1.AffinePoint where
  x := 0xfffffffffffffffffffffffffffffffebaaedce6af48a03bbfd25e8cd0364143
  y := 0x36b1aa62eb77c1973025cbcbea9740eed8eacdab8772268b395064453269d1d3

/-- A signature of a digest whose number is the order, given with the higher of
its second scalars. -/
theorem recovered_key_verifies_of_wrapped_point :
    let digest : Digest := FixedBytes.ofNat 32 Secp256k1.groupOrder
    let signature : Signature :=
      ⟨2, 2, some 3, by decide, by decide, by decide⟩
    Signature.ofCompactRecoverable
        (bigEndian 32 2 ++ bigEndian 32 (Secp256k1.groupOrder - 2)) 2 =
          .ok signature ∧
      signature.recover digest = .ok ⟨wrappedPoint, false⟩ ∧
      signature.s.val ≤ Secp256k1.halfOrder ∧
      ∀ compressed, ((PublicKey.mk wrappedPoint false).withCompression
        compressed).verify digest signature = true := by
  intro digest signature
  have recovered : signature.recover digest = .ok ⟨wrappedPoint, false⟩ := by
    decide +kernel
  exact ⟨by decide +kernel, recovered,
    recovered_key_verifies.1 signature digest _ recovered⟩

theorem verifyMessage_eq_ok_decide {addressText text : String}
    {message : Bytes} {address : Address} {signer : PublicKey}
    (read : Address.ofText addressText = .ok address)
    (recovered : recoverMessageSigner message text = .ok signer) :
    verifyMessage addressText message text =
      .ok (decide (address.keyHash = signer.hash)) := by
  unfold verifyMessage
  rw [read, recovered, Address.ofText_eq_ok_iff.mp read]
  change Except.ok (_ == _) = _
  rw [beq_eq_decide, Except.ok.injEq, decide_eq_decide]
  constructor
  -- A text has one reading, so equal texts are of the same key hash.
  · intro sameText
    have rereads := Address.ofText_eq_ok_iff.mpr sameText.symm
    rw [Address.ofText_eq_ok_iff.mpr rfl, Except.ok.injEq] at rereads
    rw [rereads]
    rfl
  · intro sameHash
    unfold PublicKey.address
    rw [← sameHash]

theorem recoverMessageSigner_signMessage (key : PrivateKey) (message : Bytes) :
    recoverMessageSigner message (key.signMessage message) =
      .ok key.publicKey := by
  rw [recoverMessageSigner_eq_recover, PrivateKey.signMessage]
  generalize messageDigest message = digest
  obtain ⟨nonce, -, numbered⟩ := key.exists_signingEquation_sign digest
  have read := MessageSignature.ofText_toText
    ⟨key.sign digest, key.compressed⟩ numbered
  simp only [read, Error.bind_eq_ok_iff]
  refine ⟨_, rfl, ?_⟩
  dsimp only
  exact ⟨_, key.recover_sign digest, rfl⟩

/-- The signature of a message recovers to the key that made it, and an address
is told to be the signer's exactly if it holds the key's name. -/
theorem signMessage_names_signer (key : PrivateKey) (message : Bytes) :
    recoverMessageSigner message (key.signMessage message) =
        .ok key.publicKey ∧
      (∀ addressText address, Address.ofText addressText = .ok address →
        verifyMessage addressText message (key.signMessage message) =
          .ok (decide (address.keyHash = key.publicKey.hash))) ∧
      (∀ network,
        verifyMessage (key.publicKey.address network).toText message
          (key.signMessage message) = .ok true) ∧
      (∀ addressText address, Address.ofText addressText = .ok address →
        (∀ network, addressText ≠ (key.publicKey.address network).toText) →
          verifyMessage addressText message (key.signMessage message) =
            .ok false) ∧
      ∀ network,
        let otherForm := key.publicKey.withCompression (!key.compressed)
        otherForm.hash ≠ key.publicKey.hash →
          verifyMessage (otherForm.address network).toText message
            (key.signMessage message) = .ok false := by
  have recovered := recoverMessageSigner_signMessage key message
  have decided (addressText address)
      (read : Address.ofText addressText = .ok address) :=
    verifyMessage_eq_ok_decide read recovered
  refine ⟨recovered, decided, fun network => ?_,
    fun addressText address read foreign => ?_, fun network => ?_⟩
  · rw [decided _ _ (Address.ofText_eq_ok_iff.mpr rfl)]
    exact congrArg Except.ok (decide_eq_true rfl)
  · rw [decided _ _ read, Except.ok.injEq, decide_eq_false_iff_not]
    intro sameHash
    apply foreign address.network
    rw [Address.ofText_eq_ok_iff.mp read, PublicKey.address, ← sameHash]
  · intro otherForm otherHash
    rw [decided _ _ (Address.ofText_eq_ok_iff.mpr rfl), Except.ok.injEq,
      decide_eq_false_iff_not]
    exact otherHash

theorem signMessage_names_signer_of_unit_secret :
    let key : PrivateKey := ⟨1, true, .mainnet, by decide⟩
    let otherForm := key.publicKey.withCompression false
    let signature := key.signMessage [0x61]
    let blank : Address := ⟨.mainnet, FixedBytes.ofNat 20 0⟩
    recoverMessageSigner [0x61] signature = .ok key.publicKey ∧
      Address.ofText "1111111111111111111114oLvT2" = .ok blank ∧
      verifyMessage "1111111111111111111114oLvT2" [0x61] signature =
        .ok (decide (blank.keyHash = key.publicKey.hash)) ∧
      (∀ network, "1111111111111111111114oLvT2" ≠
        (key.publicKey.address network).toText) ∧
      verifyMessage "1111111111111111111114oLvT2" [0x61] signature =
        .ok false ∧
      verifyMessage (key.publicKey.address .testnet).toText [0x61] signature =
        .ok true ∧
      otherForm.hash ≠ key.publicKey.hash ∧
      verifyMessage (otherForm.address .mainnet).toText [0x61] signature =
        .ok false := by
  intro key otherForm signature blank
  have read : Address.ofText "1111111111111111111114oLvT2" = .ok blank := by
    decide +kernel
  have foreign (network : Network) : "1111111111111111111114oLvT2" ≠
      (key.publicKey.address network).toText := by
    cases network <;> decide +kernel
  have otherHash : otherForm.hash ≠ key.publicKey.hash := by decide +kernel
  obtain ⟨recovered, decided, own, others, otherForms⟩ :=
    signMessage_names_signer key [0x61]
  exact ⟨recovered, read, decided _ _ read, foreign, others _ _ read foreign,
    own .testnet, otherHash, otherForms .mainnet otherHash⟩

end CoinSpend
