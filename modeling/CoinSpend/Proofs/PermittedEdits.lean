import CoinSpend.Proofs.ExtractedSpends

/-!
# A signature outlives every edit that its hash type permits

Two inputs with the same unlocking script verify alike against the script of a
key hash, in whatever transactions and at whatever places they stand, if the
transactions agree on what the hash type in that script commits to.
-/

namespace CoinSpend

namespace Transaction

variable {first second : Transaction} {firstIndex secondIndex : Nat}
  {type : HashType} {scriptCode : Script}

theorem committedCopy_congr (firstBound : firstIndex < first.inputs.length)
    (secondBound : secondIndex < second.inputs.length)
    (firstPresent : type.outputs = .single →
      firstIndex < first.outputs.length)
    (secondPresent : type.outputs = .single →
      secondIndex < second.outputs.length)
    (same : SameCommitment type first second firstIndex secondIndex)
    (sameIndex : type.anyoneCanPay = false → firstIndex = secondIndex) :
    first.committedCopy firstIndex type scriptCode =
      second.committedCopy secondIndex type scriptCode := by
  have outputsEq : first.committedOutputs firstIndex type =
      second.committedOutputs secondIndex type :=
    (committedOutputs_eq_iff firstPresent secondPresent).mpr
      ⟨same.outputs_eq, same.output_eq⟩
  have inputsEq : first.committedInputs firstIndex type scriptCode =
      second.committedInputs secondIndex type scriptCode := by
    cases alone : type.anyoneCanPay with
    | true =>
        exact (committedInputs_eq_iff_alone alone firstBound secondBound).mpr
          ⟨rfl, same.prevout_eq, same.sequence_eq⟩
    | false =>
        obtain rfl := sameIndex alone
        exact (committedInputs_eq_iff_shared alone firstBound secondBound).mpr
          ⟨rfl, same.sequence_eq, same.prevouts_eq alone,
            same.sequences_eq alone⟩
  unfold committedCopy
  rw [same.version_eq, same.lockTime_eq, inputsEq, outputsEq]

/-- An output that is missing at one of the two places is missing at both. -/
theorem length_outputs_le_iff (single : type.outputs = .single)
    (same : SameCommitment type first second firstIndex secondIndex) :
    first.outputs.length ≤ firstIndex ↔ second.outputs.length ≤ secondIndex := by
  rw [← List.getElem?_eq_none_iff, ← List.getElem?_eq_none_iff,
    (same.output_eq single).2]

theorem signatureHash_eq_of_sameCommitment
    (firstBound : firstIndex < first.inputs.length)
    (secondBound : secondIndex < second.inputs.length)
    (same : SameCommitment type first second firstIndex secondIndex)
    (sameIndex : type.anyoneCanPay = false → firstIndex = secondIndex) :
    first.signatureHash firstIndex type scriptCode =
      second.signatureHash secondIndex type scriptCode := by
  unfold signatureHash
  rw [if_neg (Nat.not_le.mpr firstBound), if_neg (Nat.not_le.mpr secondBound)]
  by_cases missing : type.outputs = .single ∧ first.outputs.length ≤ firstIndex
  · have secondMissing : type.outputs = .single ∧
        second.outputs.length ≤ secondIndex :=
      ⟨missing.1, (length_outputs_le_iff missing.1 same).mp missing.2⟩
    rw [if_pos missing, if_pos secondMissing]
  · have firstPresent (single : type.outputs = .single) :
        firstIndex < first.outputs.length :=
      Nat.not_le.mp fun absent => missing ⟨single, absent⟩
    have secondPresent (single : type.outputs = .single) :
        secondIndex < second.outputs.length :=
      Nat.not_le.mp fun absent => missing
        ⟨single, (length_outputs_le_iff single same).mpr absent⟩
    have secondNotMissing : ¬ (type.outputs = .single ∧
        second.outputs.length ≤ secondIndex) :=
      fun absent => Nat.not_le.mpr (secondPresent absent.1) absent.2
    rw [if_neg missing, if_neg secondNotMissing, signaturePreimage,
      signaturePreimage, committedCopy_congr firstBound secondBound
        firstPresent secondPresent same sameIndex]

/-- The last byte of the signature is all that selects the digest. -/
theorem checkSignature_congr {check : SignatureCheck}
    (typed : check.signature.getLast? = some type.toByte)
    (hashEq : first.signatureHash firstIndex type check.scriptCode =
      second.signatureHash secondIndex type check.scriptCode) :
    first.checkSignature firstIndex check =
      second.checkSignature secondIndex check := by
  unfold checkSignature
  by_cases missing : check.signature = []
  · rw [if_pos missing, if_pos missing]
  rw [if_neg missing, if_neg missing]
  cases parsed : TypedSignature.ofBytes check.signature with
  | error error => simp only [bind, Except.bind]
  | ok found =>
      obtain ⟨last, lastEq, typeEq, -⟩ :=
        TypedSignature.ofBytes_eq_ok_iff_parts.mp parsed
      rw [typed, Option.some.injEq] at lastEq
      rw [← lastEq, HashType.ofByte_toByte, Except.ok.injEq] at typeEq
      simp only [bind, Except.bind, ← typeEq, hashEq]

/-- Two inputs with the same pushes, the second to last ending in a hash type,
verify alike, with the same error if that is how it ends, if they agree on what
the hash type commits to. -/
theorem verifyInput_eq_of_sameCommitment {firstInput secondInput : TxInput}
    (firstLocated : first.inputs[firstIndex]? = some firstInput)
    (secondLocated : second.inputs[secondIndex]? = some secondInput)
    (sameUnlocking : firstInput.unlocking = secondInput.unlocking)
    {earlier : List Bytes} {signature publicKey : Bytes}
    (pushes : firstInput.unlocking.elements =
      .ok ((earlier ++ [signature, publicKey]).map .push))
    (typed : signature.getLast? = some type.toByte)
    {locking : Script} {keyHash : KeyHash}
    (locked : locking.pattern = .payToKeyHash keyHash)
    (same : SameCommitment type first second firstIndex secondIndex)
    (sameIndex : type.anyoneCanPay = false → firstIndex = secondIndex) :
    first.verifyInput firstIndex locking =
      second.verifyInput secondIndex locking := by
  have firstBound := (List.getElem?_eq_some_iff.mp firstLocated).1
  have secondBound := (List.getElem?_eq_some_iff.mp secondLocated).1
  have agree : ∀ check ∈ (runScripts (first.checkSignature firstIndex)
      firstInput.unlocking locking).2.checks,
      first.checkSignature firstIndex check =
        second.checkSignature secondIndex check := by
    intro check asked
    obtain ⟨-, others, otherPushes⟩ :=
      lastPushes_of_mem_checks (Script.pattern_eq_payToKeyHash_iff.mp locked) asked
    have samePushes := items_unique pushes otherPushes
    -- the signature that is checked is the one whose hash type was given
    have lastTwo := (List.append_inj' samePushes rfl).2
    simp only [List.cons.injEq, and_true] at lastTwo
    rw [lastTwo.1] at typed
    exact checkSignature_congr typed
      (signatureHash_eq_of_sameCommitment firstBound secondBound same
        sameIndex)
  simp only [verifyInput, firstLocated, secondLocated, verifyScripts]
  rw [← sameUnlocking, runScripts_congr agree]

/-- A signed input that has lost the one before it, in a transaction with a new
output.  The signature, under which something else is pushed, is still
accepted. -/
theorem verifyInput_eq_of_moved_input :
    let key : PrivateKey := ⟨1, true, .mainnet, by decide⟩
    let locking := Script.payToKeyHash key.publicKey.hash
    let type : HashType := ⟨.none, true⟩
    let moved (unlocking : Script) : TxInput :=
      ⟨⟨missingOutputDigest, 1⟩, unlocking, 6⟩
    let tx : Transaction := ⟨2,
      [⟨⟨missingOutputDigest, 0⟩, ⟨[0x52]⟩, 5⟩, moved .empty], [], 9⟩
    let digest := doubleSha256 (tx.signaturePreimage 1 type locking)
    let signature := (TypedSignature.mk (key.sign digest) type).toBytes
    let pushes := ([[0x51]] ++ [signature, key.publicKey.toBytes]).map .push
    let unlocking := Script.ofElements pushes
    let first := tx.setUnlocking 1 unlocking
    let second : Transaction := ⟨2, [moved unlocking], [blankOutput], 9⟩
    unlocking.elements = .ok pushes ∧
      signature.getLast? = some type.toByte ∧
      locking.pattern = .payToKeyHash key.publicKey.hash ∧
      SameCommitment type first second 1 0 ∧
      first.verifyInput 1 locking = .ok true ∧
      second.verifyInput 0 locking = .ok true := by
  intro key locking type moved tx digest signature pushes unlocking first second
  have signatureShort : signature.length ≤ 72 :=
    TypedSignature.length_toBytes_le _
  have keyShort : key.publicKey.toBytes.length ≤ 65 :=
    PublicKey.length_toBytes_le _
  have short : ∀ item ∈ [[0x51]] ++ [signature, key.publicKey.toBytes],
      item.length ≤ 73 :=
    List.forall_mem_cons.mpr ⟨by decide, List.forall_mem_cons.mpr
      ⟨by omega, List.forall_mem_singleton.mpr (by omega)⟩⟩
  have parsed : unlocking.elements = .ok pushes :=
    elements_ofElements_pushes fun item itemMem =>
      Nat.lt_of_le_of_lt (short item itemMem) (by decide)
  have typed : signature.getLast? = some type.toByte := List.getLast?_concat
  have locked : locking.pattern = .payToKeyHash key.publicKey.hash :=
    Script.pattern_eq_payToKeyHash_iff.mpr (Script.elements_payToKeyHash _)
  have same : SameCommitment type first second 1 0 :=
    ⟨rfl, rfl, rfl, rfl, by decide, by decide, by decide, by decide⟩
  have firstLocated : first.inputs[1]? = some (moved unlocking) := rfl
  have hashed : first.signatureHash 1 type locking = .ok digest := by
    rw [signatureHash_setUnlocking]
    rfl
  have accepted : first.verifyInput 1 locking = .ok true := by
    simp only [verifyInput, firstLocated]
    exact (verifyScripts_of_presented _ [[0x51]]
      (keyHashUnlocking_of_short parsed short (by simp)) _).trans
        ((if_pos rfl).trans (checkSignature_sign hashed key))
  refine ⟨parsed, typed, locked, same, accepted, ?_⟩
  rw [← verifyInput_eq_of_sameCommitment firstLocated rfl rfl parsed typed
    locked same (by decide), accepted]

end Transaction

end CoinSpend
