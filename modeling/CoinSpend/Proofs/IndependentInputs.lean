import CoinSpend.Proofs.SignedSessions

/-!
# Inputs are verified independently

Verifying an input reads its own unlocking script, and of the others at most
their number: no digest that a signature is checked against depends on an
unlocking script.  So the other inputs may hold any scripts, and they can be
signed in any order without changing a verdict.
-/

namespace CoinSpend

/-- A locking script that does nothing but check leaves the decision to the
checker. -/
theorem verifyScripts_of_bare_check {checker : SignatureChecker}
    {signature publicKey : Bytes} (signatureShort : signature.length ≤ 72)
    (keyShort : publicKey.length ≤ 65) :
    verifyScripts checker (.signatureAndKey signature publicKey) ⟨[0xac]⟩ =
      checker ⟨signature, publicKey, ⟨[0xac]⟩⟩ := by
  have size := Script.size_signatureAndKey_le signatureShort keyShort
  have short : ∀ item ∈ [signature, publicKey],
      item.length ≤ Script.maxPushSize :=
    List.forall_mem_cons.mpr
      ⟨Nat.le_trans signatureShort (by decide),
        List.forall_mem_singleton.mpr (Nat.le_trans keyShort (by decide))⟩
  have parsed : (Script.mk [0xac]).elements = .ok [.op .checkSig] := rfl
  rw [verifyScripts, runScripts_of_pushes
    (elements_signatureAndKey (by omega) (by omega))
    (Nat.le_trans size (by decide)) short (by simp [Machine.maxDepth])]
  change (judged (Machine.eval checker ⟨[publicKey, signature], []⟩
    ⟨[0xac]⟩)).1 = _
  rw [Machine.eval, if_neg (by decide), parsed]
  simp only
  rw [Machine.run_checkSig (by decide), judged_afterCheck]

namespace Transaction

theorem checkSignature_eq_of_unsigned {first second : Transaction}
    (same : first.unsigned = second.unsigned) :
    first.checkSignature = second.checkSignature := by
  funext index check
  unfold checkSignature
  rw [signatureHash_congr same]

/-- Transactions that differ only in the unlocking scripts of other inputs give
the same verdict, or the same error, against every locking script.  In
particular a run of signing calls that fulfils no request for an input leaves
its verdict as it was. -/
theorem verifyInput_independent (index : Nat) (locking : Script) :
    (∀ first second : Transaction, first.unsigned = second.unsigned →
      first.inputs[index]? = second.inputs[index]? →
      first.verifyInput index locking = second.verifyInput index locking) ∧
    ∀ (tx : Transaction) (calls : List SigningCall),
      tx.lastFulfilled? calls index = none →
      (tx.signAll calls).verifyInput index locking =
        tx.verifyInput index locking := by
  have independent (first second : Transaction)
      (sameUnsigned : first.unsigned = second.unsigned)
      (sameInput : first.inputs[index]? = second.inputs[index]?) :
      first.verifyInput index locking = second.verifyInput index locking := by
    unfold verifyInput
    rw [sameInput, length_inputs_congr sameUnsigned,
      checkSignature_eq_of_unsigned sameUnsigned]
  refine ⟨independent, fun tx calls untouched => ?_⟩
  exact independent _ tx (tx.unsigned_signAll calls)
    (inputs_signAll_of_none untouched)

/-- A bare signature check accepts a signature of all inputs and outputs, beside
an input whose script is first missing, then cut off in the middle of a push, and
then signed. -/
theorem verifyInput_independent_of_cut_script :
    let key : PrivateKey := ⟨1, true, .mainnet, by decide⟩
    let locking : Script := ⟨[0xac]⟩
    let input (place : UInt32) : TxInput :=
      ⟨⟨missingOutputDigest, place⟩, .empty, place⟩
    let tx : Transaction := ⟨2, [input 0, input 1], [blankOutput], 9⟩
    let digest := doubleSha256 (tx.signaturePreimage 1 .all locking)
    let own := Script.signatureAndKey
      (TypedSignature.mk (key.sign digest) .all).toBytes key.publicKey.toBytes
    let first := tx.setUnlocking 1 own
    let second := first.setUnlocking 0 ⟨[0x4d, 0xff]⟩
    let calls : List SigningCall := [.single ⟨0, ⟨.none, true⟩, key, .empty⟩]
    first.unsigned = second.unsigned ∧
      first.inputs[1]? = second.inputs[1]? ∧
      first.verifyInput 1 locking = .ok true ∧
      second.verifyInput 1 locking = .ok true ∧
      second.lastFulfilled? calls 1 = none ∧
      (second.signAll calls).verifyInput 1 locking = .ok true := by
  intro key locking input tx digest own first second calls
  have sameUnsigned : first.unsigned = second.unsigned :=
    (unsigned_setUnlocking first 0 _).symm
  have firstLocated : first.inputs[1]? = some { input 1 with unlocking := own } :=
    rfl
  have secondLocated :
      second.inputs[1]? = some { input 1 with unlocking := own } :=
    rfl
  have sameInput : first.inputs[1]? = second.inputs[1]? :=
    firstLocated.trans secondLocated.symm
  have hashed : first.signatureHash 1 .all locking = .ok digest := by
    rw [signatureHash_setUnlocking]
    rfl
  have verified : first.verifyInput 1 locking = .ok true := by
    simp only [verifyInput, firstLocated]
    rw [verifyScripts_of_bare_check (TypedSignature.length_toBytes_le _)
      (PublicKey.length_toBytes_le _), checkSignature_sign hashed key]
  have untouched : second.lastFulfilled? calls 1 = none := by rfl
  obtain ⟨independent, ofRun⟩ := verifyInput_independent 1 locking
  have verifiedBeside : second.verifyInput 1 locking = .ok true :=
    (independent first second sameUnsigned sameInput).symm.trans verified
  exact ⟨sameUnsigned, sameInput, verified, verifiedBeside, untouched,
    (ofRun second calls untouched).trans verifiedBeside⟩

end Transaction

end CoinSpend
