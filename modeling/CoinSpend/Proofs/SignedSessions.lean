import CoinSpend.InputVerification
import CoinSpend.Proofs.AcceptedSignatures
import CoinSpend.Proofs.DerForm
import CoinSpend.Proofs.KeyForm
import CoinSpend.Proofs.KeyHashDecision
import CoinSpend.Proofs.SigningRuns

/-!
# Signed inputs verify

What signing writes is read back, and the digest it was made for is the digest
that verification computes, whatever has been signed in between.
-/

namespace CoinSpend

namespace TypedSignature

theorem length_toBytes_le (typed : TypedSignature) :
    typed.toBytes.length ≤ 72 := by
  have bound := typed.signature.length_toDer_le
  simp only [toBytes, List.length_append, List.length_singleton]
  omega

theorem toBytes_ne_nil (typed : TypedSignature) : typed.toBytes ≠ [] := by
  simp [toBytes]

/-- The recovery number is not part of the written form. -/
theorem ofBytes_toBytes (typed : TypedSignature) :
    ofBytes typed.toBytes =
      .ok ⟨{ typed.signature with recoveryId := none }, typed.type⟩ := by
  have last : typed.toBytes.getLast? = some typed.type.toByte :=
    List.getLast?_concat
  have front : typed.toBytes.dropLast = typed.signature.toDer :=
    List.dropLast_concat
  unfold ofBytes
  rw [last, front]
  simp only [HashType.ofByte_toByte, Signature.ofDer_toDer]
  rfl

end TypedSignature

namespace PublicKey

theorem length_toBytes_le (key : PublicKey) : key.toBytes.length ≤ 65 := by
  rw [length_toBytes]
  split <;> decide

end PublicKey

namespace Transaction

variable {tx : Transaction} {index : Nat} {type : HashType} {digest : Digest}

/-- A check of what a key signed computes the digest anew and accepts it. -/
theorem checkSignature_sign {scriptCode : Script}
    (hashed : tx.signatureHash index type scriptCode = .ok digest)
    (key : PrivateKey) :
    tx.checkSignature index
        ⟨(TypedSignature.mk (key.sign digest) type).toBytes,
          key.publicKey.toBytes, scriptCode⟩ = .ok true := by
  have keyOn : key.publicKey.point.OnCurve := key.publicPoint_view.1
  unfold checkSignature
  rw [if_neg (TypedSignature.toBytes_ne_nil _)]
  simp only [TypedSignature.ofBytes_toBytes, PublicKey.ofBytes_toBytes keyOn]
  change (do
    let found ← tx.signatureHash index type scriptCode
    return key.publicKey.verify found
      { key.sign digest with recoveryId := none }) = Except.ok true
  rw [hashed]
  change Except.ok _ = Except.ok true
  rw [PublicKey.verify_set_recoveryId, key.verify_sign]

end Transaction

theorem Script.size_signatureAndKey_le {signature publicKey : Bytes}
    (signatureShort : signature.length ≤ 72) (keyShort : publicKey.length ≤ 65) :
    (Script.signatureAndKey signature publicKey).size ≤ 139 := by
  have signatureDirect : signature.length < 0x4c := by omega
  have keyDirect : publicKey.length < 0x4c := by omega
  simp [size, signatureAndKey, ofElements, ScriptElement.toBytes, pushHeader,
    signatureDirect, keyDirect]
  omega

/-- Spending with a presented signature and public key. -/
theorem verifyScripts_signatureAndKey {checker : SignatureChecker}
    {signature publicKey : Bytes} (signatureShort : signature.length ≤ 72)
    (keyShort : publicKey.length ≤ 65) (keyHash : KeyHash) :
    verifyScripts checker (.signatureAndKey signature publicKey)
        (.payToKeyHash keyHash) =
      if hash160 publicKey = keyHash then
        checker ⟨signature, publicKey, .payToKeyHash keyHash⟩
      else .ok false := by
  have parsed : (Script.signatureAndKey signature publicKey).elements =
      .ok ([signature, publicKey].map .push) :=
    elements_signatureAndKey (by omega) (by omega)
  have short : ∀ item ∈ [signature, publicKey], item.length ≤ 73 :=
    List.forall_mem_cons.mpr
      ⟨by omega, List.forall_mem_singleton.mpr (by omega)⟩
  exact verifyScripts_of_presented checker []
    (keyHashUnlocking_of_short parsed short (by simp)) keyHash

namespace Transaction

variable {tx : Transaction} {index : Nat}

theorem verifyInput_of_unlockingScript {request : SigningRequest}
    {input : TxInput} {keyHash : KeyHash}
    (located : tx.inputs[request.inputIndex]? = some input)
    (locked : request.locking = .payToKeyHash keyHash)
    (unlocked : tx.unlockingScript request = .ok input.unlocking) :
    tx.verifyInput request.inputIndex (.payToKeyHash keyHash) =
      .ok (decide (request.key.publicKey.hash = keyHash)) := by
  unfold unlockingScript at unlocked
  cases hashed : tx.signatureHash request.inputIndex request.type
      request.locking with
  | error error =>
      rw [hashed] at unlocked
      cases unlocked
  | ok digest =>
      rw [hashed] at unlocked
      injection unlocked with unlocking
      rw [locked] at hashed
      unfold verifyInput
      simp only [located, ← unlocking]
      rw [verifyScripts_signatureAndKey (TypedSignature.length_toBytes_le _)
        (PublicKey.length_toBytes_le _), checkSignature_sign hashed]
      change (if request.key.publicKey.hash = keyHash then _ else _) = _
      split
      · rename_i same
        rw [decide_eq_true same]
      · rename_i differs
        rw [decide_eq_false differs]

/-- After any run of signing calls, an input that was last signed against the
script of a key hash verifies exactly if it was signed with the key of that
name. -/
theorem verifyInput_signAll (tx : Transaction) (calls : List SigningCall)
    {index : Nat} {request : SigningRequest} {keyHash : KeyHash}
    (last : tx.lastFulfilled? calls index = some request)
    (locked : request.locking = .payToKeyHash keyHash) :
    (tx.signAll calls).verifyInput index (.payToKeyHash keyHash) =
      .ok (decide (request.key.publicKey.hash = keyHash)) := by
  obtain ⟨rfl, -, input, script, -, unlocked, located⟩ :=
    inputs_signAll_of_some last
  rw [← unlockingScript_congr (tx.unsigned_signAll calls)] at unlocked
  exact verifyInput_of_unlockingScript located locked unlocked

/-- A session with a batch, a call that fails, and an input that is signed
again.  The signature of the other input commits to the whole transaction. -/
theorem verifyInput_of_session :
    let input (place : UInt32) : TxInput :=
      ⟨⟨missingOutputDigest, place⟩, .empty, 0⟩
    let tx : Transaction := ⟨1, [input 0, input 1], [blankOutput], 0⟩
    let key : PrivateKey := ⟨1, true, .mainnet, by decide⟩
    let locking := Script.payToKeyHash key.publicKey.hash
    let first : SigningRequest := ⟨0, ⟨.all, true⟩, key, locking⟩
    let second : SigningRequest := ⟨1, .all, key, locking⟩
    let missing : SigningRequest := ⟨2, ⟨.all, false⟩, key, locking⟩
    let calls : List SigningCall :=
      [.batch [first, second], .batch [first, missing],
        .single { first with type := ⟨.none, false⟩ }]
    tx.lastFulfilled? calls 1 = some second ∧
      second.locking = .payToKeyHash key.publicKey.hash ∧
      (tx.signAll calls).verifyInput 1 locking = .ok true := by
  intro input tx key locking first second missing calls
  have last : tx.lastFulfilled? calls 1 = some second := by
    rfl
  refine ⟨last, rfl, ?_⟩
  rw [verifyInput_signAll tx calls last rfl, decide_eq_true rfl]

end Transaction

end CoinSpend
