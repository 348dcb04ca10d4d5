import CoinSpend.Proofs.ScriptPatterns
import CoinSpend.Proofs.SignedSessions

/-!
# Verifying by hand

Taking the signature and the public key out of an unlocking script and checking
them one by one accepts the same inputs as executing the scripts.  What parses
is far below the limits of execution, and a key that parses has the hash of the
bytes it was parsed from.
-/

namespace CoinSpend

namespace TypedSignature

theorem ofBytes_eq_ok_iff_parts {bytes : Bytes} {typed : TypedSignature} :
    ofBytes bytes = .ok typed ↔
      ∃ last, bytes.getLast? = some last ∧
        HashType.ofByte last = .ok typed.type ∧
        Signature.ofDer bytes.dropLast = .ok typed.signature := by
  unfold ofBytes
  cases lastEq : bytes.getLast? with
  | none => simp
  | some last =>
      simp only [Option.some.injEq, exists_eq_left']
      constructor
      · intro accepted
        obtain ⟨type, typeEq, rest⟩ := Error.bind_eq_ok_iff.mp accepted
        obtain ⟨signature, signatureEq, returned⟩ :=
          Error.bind_eq_ok_iff.mp rest
        cases returned
        exact ⟨typeEq, signatureEq⟩
      · rintro ⟨typeEq, signatureEq⟩
        rw [typeEq, signatureEq]
        rfl

theorem length_le_of_ofBytes {bytes : Bytes} {typed : TypedSignature}
    (accepted : ofBytes bytes = .ok typed) : bytes.length ≤ 73 := by
  obtain ⟨_, -, -, signatureEq⟩ := ofBytes_eq_ok_iff_parts.mp accepted
  have short := Signature.length_le_of_ofDer signatureEq
  rw [List.length_dropLast] at short
  omega

end TypedSignature

namespace Transaction

variable {tx : Transaction} {index : Nat}

/-- A check is passed if everything it takes is there and verifies. -/
theorem checkSignature_eq_true_iff {check : SignatureCheck} :
    tx.checkSignature index check = .ok true ↔
      ∃ typed key digest,
        TypedSignature.ofBytes check.signature = .ok typed ∧
        PublicKey.ofBytes check.publicKey = .ok key ∧
        tx.signatureHash index typed.type check.scriptCode = .ok digest ∧
        key.verify digest typed.signature = true := by
  unfold checkSignature
  by_cases missing : check.signature = []
  · simp [missing, TypedSignature.ofBytes]
  · rw [if_neg missing]
    simp only [Error.bind_eq_ok_iff, pure, Except.pure, Except.ok.injEq]
    constructor
    · rintro ⟨typed, parsed, key, keyParsed, digest, hashed, verified⟩
      exact ⟨typed, key, digest, parsed, keyParsed, hashed, verified⟩
    · rintro ⟨typed, key, digest, parsed, keyParsed, hashed, verified⟩
      exact ⟨typed, parsed, key, keyParsed, digest, hashed, verified⟩

end Transaction

namespace Script

theorem extract_eq_ok_iff {script : Script} {signature publicKey : Bytes}
    (recognised : script.pattern = .signatureAndKey signature publicKey)
    {typed : TypedSignature} {key : PublicKey} :
    script.extract = .ok (typed, key) ↔
      TypedSignature.ofBytes signature = .ok typed ∧
        PublicKey.ofBytes publicKey = .ok key := by
  unfold extract
  rw [recognised]
  simp only [Error.bind_eq_ok_iff, pure, Except.pure, Except.ok.injEq,
    Prod.mk.injEq]
  constructor
  · rintro ⟨_, parsed, _, keyParsed, rfl, rfl⟩
    exact ⟨parsed, keyParsed⟩
  · rintro ⟨parsed, keyParsed⟩
    exact ⟨typed, parsed, key, keyParsed, rfl, rfl⟩

section SignatureAndKey

variable (typed : TypedSignature) (key : PublicKey)

theorem elements_signatureAndKey_toBytes :
    (signatureAndKey typed.toBytes key.toBytes).elements =
      .ok ([typed.toBytes, key.toBytes].map .push) := by
  have signatureShort := typed.length_toBytes_le
  have keyShort := key.length_toBytes_le
  exact elements_signatureAndKey (by omega) (by omega)

theorem pattern_signatureAndKey :
    (signatureAndKey typed.toBytes key.toBytes).pattern =
      .signatureAndKey typed.toBytes key.toBytes := by
  apply pattern_eq_signatureAndKey_iff.mpr
  refine ⟨elements_signatureAndKey_toBytes typed key, typed.toBytes_ne_nil, ?_⟩
  rw [key.length_toBytes]
  cases key.compressed with
  | true => exact .inl rfl
  | false => exact .inr rfl

/-- The recovery number is not written. -/
theorem extract_signatureAndKey (keyOn : key.point.OnCurve) :
    (signatureAndKey typed.toBytes key.toBytes).extract =
      .ok (⟨{ typed.signature with recoveryId := none }, typed.type⟩, key) :=
  (extract_eq_ok_iff (pattern_signatureAndKey typed key)).mpr
    ⟨typed.ofBytes_toBytes, PublicKey.ofBytes_toBytes keyOn⟩

end SignatureAndKey

end Script

namespace Transaction

variable {tx : Transaction} {index : Nat}

/-- Executing the scripts of an input that presents a signature and a public key
succeeds exactly if these can be extracted, the key has the hash that is asked
for, and it verifies the signature of the digest that the hash type selects. -/
theorem verifyInput_eq_true_iff_extract {input : TxInput}
    (located : tx.inputs[index]? = some input) {signature publicKey : Bytes}
    (recognised : input.unlocking.pattern =
      .signatureAndKey signature publicKey) (keyHash : KeyHash) :
    tx.verifyInput index (.payToKeyHash keyHash) = .ok true ↔
      ∃ typed key digest, input.unlocking.extract = .ok (typed, key) ∧
        key.hash = keyHash ∧
        tx.signatureHash index typed.type (.payToKeyHash keyHash) =
          .ok digest ∧
        key.verify digest typed.signature = true := by
  obtain ⟨parsed, -, keyLength⟩ :=
    Script.pattern_eq_signatureAndKey_iff.mp recognised
  have executed : tx.verifyInput index (.payToKeyHash keyHash) =
      verifyScripts (tx.checkSignature index) input.unlocking
        (.payToKeyHash keyHash) := by
    simp only [verifyInput, located]
  rw [executed]
  constructor
  · intro verified
    have presented : KeyHashUnlocking input.unlocking [signature, publicKey] :=
      keyHashUnlocking_of_verified parsed verified
    rw [verifyScripts_of_presented _ [] presented] at verified
    split at verified
    · rename_i hashEq
      obtain ⟨typed, key, digest, typedParsed, keyParsed, hashed, accepted⟩ :=
        checkSignature_eq_true_iff.mp verified
      refine ⟨typed, key, digest, ?_, ?_, hashed, accepted⟩
      · exact (Script.extract_eq_ok_iff recognised).mpr
          ⟨typedParsed, keyParsed⟩
      · rw [PublicKey.hash, (PublicKey.toBytes_of_ofBytes keyParsed).1, hashEq]
    · contradiction
  · rintro ⟨typed, key, digest, extracted, rfl, hashed, accepted⟩
    obtain ⟨typedParsed, keyParsed⟩ :=
      (Script.extract_eq_ok_iff recognised).mp extracted
    -- no signature that parses is long enough to meet a limit
    have short : ∀ item ∈ [signature, publicKey], item.length ≤ 73 :=
      List.forall_mem_cons.mpr
        ⟨TypedSignature.length_le_of_ofBytes typedParsed,
          List.forall_mem_singleton.mpr (by omega)⟩
    have presented := keyHashUnlocking_of_short parsed short (by simp)
    have hashEq : hash160 publicKey = key.hash := by
      rw [PublicKey.hash, (PublicKey.toBytes_of_ofBytes keyParsed).1]
    rw [verifyScripts_of_presented _ [] presented, if_pos hashEq]
    exact checkSignature_eq_true_iff.mpr
      ⟨typed, key, digest, typedParsed, keyParsed, hashed, accepted⟩

/-- A signature of all inputs and outputs, presented with its key. -/
theorem verifyInput_of_extracted_signature :
    let key : PrivateKey := ⟨1, true, .mainnet, by decide⟩
    let locking := Script.payToKeyHash key.publicKey.hash
    let tx : Transaction :=
      ⟨1, [⟨⟨missingOutputDigest, 0⟩, .empty, 7⟩], [blankOutput], 0⟩
    let digest := doubleSha256 (tx.signaturePreimage 0 .all locking)
    let signature := (TypedSignature.mk (key.sign digest) .all).toBytes
    let unlocking := Script.signatureAndKey signature key.publicKey.toBytes
    unlocking.pattern = .signatureAndKey signature key.publicKey.toBytes ∧
      (∃ typed, unlocking.extract = .ok (typed, key.publicKey)) ∧
      (tx.setUnlocking 0 unlocking).verifyInput 0 locking = .ok true := by
  intro key locking tx digest signature unlocking
  have recognised : unlocking.pattern =
      .signatureAndKey signature key.publicKey.toBytes :=
    Script.pattern_signatureAndKey ⟨key.sign digest, .all⟩ key.publicKey
  have hashed : (tx.setUnlocking 0 unlocking).signatureHash 0 .all locking =
      .ok digest := by
    rw [signatureHash_setUnlocking]
    rfl
  have extracted : unlocking.extract =
      .ok (⟨{ key.sign digest with recoveryId := none }, .all⟩,
        key.publicKey) :=
    Script.extract_signatureAndKey ⟨key.sign digest, .all⟩ key.publicKey
      key.publicPoint_view.1
  have located : (tx.setUnlocking 0 unlocking).inputs[0]? =
      some ⟨⟨missingOutputDigest, 0⟩, unlocking, 7⟩ :=
    rfl
  have accepted : key.publicKey.verify digest
      { key.sign digest with recoveryId := none } = true := by
    rw [PublicKey.verify_set_recoveryId, key.verify_sign]
  exact ⟨recognised, ⟨_, extracted⟩,
    (verifyInput_eq_true_iff_extract located recognised _).mpr
      ⟨_, _, digest, extracted, rfl, hashed, accepted⟩⟩

end Transaction

end CoinSpend
