import CoinSpend.Proofs.ExtractedSpends

/-!
# What signing writes is read back

The script that presents a signature and a public key is recognised by its two
pushes, and taking them out gives back what was put in, except for the recovery
number, which is not written.
-/

namespace CoinSpend

namespace Script

/-- A presented signature and public key are taken out again, the signature
without its recovery number. -/
theorem signatureAndKey_readBack (signature : Signature) (type : HashType)
    {key : PublicKey} (keyOn : key.point.OnCurve) :
    let typed : TypedSignature := ⟨signature, type⟩
    let script := signatureAndKey typed.toBytes key.toBytes
    script.isPushOnly = true ∧
      script.size ≤ 139 ∧
      script.pattern = .signatureAndKey typed.toBytes key.toBytes ∧
      ∃ found, script.extract = .ok (⟨found, type⟩, key) ∧
        found.r = signature.r ∧ found.s = signature.s ∧
        found.recoveryId = none := by
  intro typed script
  refine ⟨?_, ?_, pattern_signatureAndKey typed key,
    { signature with recoveryId := none },
    extract_signatureAndKey typed key keyOn, rfl, rfl, rfl⟩
  · exact isPushOnly_of_pushes (elements_signatureAndKey_toBytes typed key)
  · exact size_signatureAndKey_le typed.length_toBytes_le key.length_toBytes_le

end Script

namespace Transaction

theorem unlockingScript_of_signatureHash {tx : Transaction}
    {request : SigningRequest} {digest : Digest}
    (hashed : tx.signatureHash request.inputIndex request.type
      request.locking = .ok digest) :
    tx.unlockingScript request = .ok (.signatureAndKey
      (TypedSignature.mk (request.key.sign digest) request.type).toBytes
      request.key.publicKey.toBytes) := by
  unfold unlockingScript
  rw [hashed]
  rfl

/-- The script that fulfils a request for an input that is there holds the
signature of the digest and the public key, whatever the hash type and the form
of the key, and both are taken out of it again. -/
theorem unlockingScript_readBack (tx : Transaction) (request : SigningRequest)
    (inside : request.inputIndex < tx.inputs.length) :
    ∃ digest script signature,
      tx.signatureHash request.inputIndex request.type request.locking =
        .ok digest ∧
      tx.unlockingScript request = .ok script ∧
      script.isPushOnly = true ∧
      script.size ≤ 139 ∧
      (∃ signatureBytes keyBytes,
        script.pattern = .signatureAndKey signatureBytes keyBytes) ∧
      script.extract = .ok (⟨signature, request.type⟩, request.key.publicKey) ∧
      signature.r = (request.key.sign digest).r ∧
      signature.s = (request.key.sign digest).s ∧
      signature.recoveryId = none := by
  obtain ⟨digest, hashed⟩ :=
    exists_signatureHash_of_lt inside request.type request.locking
  have keyOn : request.key.publicKey.point.OnCurve :=
    request.key.publicPoint_view.1
  obtain ⟨pushOnly, size, recognised, signature, extracted, sameR, sameS,
    unnumbered⟩ := Script.signatureAndKey_readBack (request.key.sign digest)
      request.type keyOn
  exact ⟨digest, _, signature, hashed, unlockingScript_of_signatureHash hashed,
    pushOnly, size, ⟨_, _, recognised⟩, extracted, sameR, sameS, unnumbered⟩

/-- A signature with an uncompressed key, which commits to the output at the
index of its input. -/
theorem unlockingScript_readBack_of_uncompressed_key :
    let key : PrivateKey := ⟨1, false, .testnet, by decide⟩
    let input (place : UInt32) : TxInput :=
      ⟨⟨missingOutputDigest, place⟩, .empty, 7⟩
    let tx : Transaction :=
      ⟨1, [input 0, input 1], [⟨90, ⟨[0x51]⟩⟩, ⟨91, .empty⟩], 0⟩
    let type : HashType := ⟨.single, true⟩
    let locking := Script.payToKeyHash key.publicKey.hash
    let digest := doubleSha256 (tx.signaturePreimage 1 type locking)
    1 < tx.inputs.length ∧
      ∃ script signature, tx.unlockingScript ⟨1, type, key, locking⟩ =
          .ok script ∧
        script.isPushOnly = true ∧
        script.size ≤ 139 ∧
        script.extract = .ok (⟨signature, type⟩, key.publicKey) ∧
        signature.r = (key.sign digest).r ∧
        signature.s = (key.sign digest).s ∧
        signature.recoveryId = none := by
  intro key input tx type locking digest
  have inside : 1 < tx.inputs.length := by decide
  have hashed : tx.signatureHash 1 type locking = .ok digest := rfl
  obtain ⟨found, script, signature, foundHashed, unlocked, pushOnly, size, -,
    extracted, sameR, sameS, unnumbered⟩ :=
      unlockingScript_readBack tx ⟨1, type, key, locking⟩ inside
  obtain rfl : digest = found := Except.ok.inj (hashed.symm.trans foundHashed)
  exact ⟨inside, script, signature, unlocked, pushOnly, size, extracted, sameR,
    sameS, unnumbered⟩

end Transaction

end CoinSpend
