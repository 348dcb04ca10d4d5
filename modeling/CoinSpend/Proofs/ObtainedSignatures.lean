import CoinSpend.InputVerification
import CoinSpend.Proofs.AcceptedSignatures
import CoinSpend.Proofs.DerLanguage
import CoinSpend.Proofs.MessageSignatureTexts

/-!
# What can be seen of a signature

Signatures are made by signing, by parsing one of their forms, and by setting the
recovery number of another one.  Exactly the compact forms of two numbers in range
are ever seen, the second one in the lower half, with or without a recovery number
below four.  Both forms of a signature lead back to it.
-/

namespace CoinSpend

open Secp256k1

namespace Signature

/-- The signatures that the operations of the library return, in any
composition. -/
inductive Obtained : Signature → Prop
  | sign (key : PrivateKey) (digest : Digest) : Obtained (key.sign digest)
  | ofCompact {bytes : Bytes} {signature : Signature}
      (parsed : ofCompact bytes = .ok signature) : Obtained signature
  | ofCompactRecoverable {bytes : Bytes} {number : UInt8}
      {signature : Signature}
      (parsed : ofCompactRecoverable bytes number = .ok signature) :
      Obtained signature
  | ofDer {bytes : Bytes} {signature : Signature}
      (parsed : ofDer bytes = .ok signature) : Obtained signature
  | withRecoveryId {number : UInt8} {signature changed : Signature}
      (obtained : Obtained signature)
      (set : signature.withRecoveryId number = .ok changed) : Obtained changed
  | ofText {text : String} {signed : MessageSignature}
      (parsed : MessageSignature.ofText text = .ok signed) :
      Obtained signed.signature
  | extract {script : Script} {typed : TypedSignature} {key : PublicKey}
      (parsed : script.extract = .ok (typed, key)) : Obtained typed.signature

theorem sameScalars_iff {first second : Signature} :
    first.sameScalars second = true ↔
      first.r = second.r ∧ first.s = second.s := by
  simp [sameScalars]

theorem toDer_eq_iff {first second : Signature} :
    first.toDer = second.toDer ↔ first.sameScalars second = true := by
  rw [toDer, toDer, Der.encodePair_inj, sameScalars_iff]

theorem ofCompact_toCompact (signature : Signature) :
    ofCompact signature.toCompact =
      .ok { signature with recoveryId := none } :=
  signature.ofCompactFields_toCompact none

theorem checkedRecoveryId_val (recoveryId : Fin 4) :
    checkedRecoveryId (UInt8.ofNat recoveryId.val) = .ok recoveryId := by
  revert recoveryId
  decide

theorem checkedRecoveryId_eq_ok_iff {number : UInt8} {recoveryId : Fin 4} :
    checkedRecoveryId number = .ok recoveryId ↔
      number = UInt8.ofNat recoveryId.val := by
  constructor
  · intro checked
    unfold checkedRecoveryId at checked
    split at checked
    · cases checked
      exact UInt8.ofNat_toNat.symm
    · cases checked
  · rintro rfl
    exact checkedRecoveryId_val recoveryId

theorem ofCompactRecoverable_toCompact (signature : Signature)
    (recoveryId : Fin 4) :
    ofCompactRecoverable signature.toCompact (UInt8.ofNat recoveryId.val) =
      .ok { signature with recoveryId := some recoveryId } :=
  Error.bind_eq_ok_iff.mpr ⟨recoveryId, checkedRecoveryId_val recoveryId,
    signature.ofCompactFields_toCompact (some recoveryId)⟩

/-- Every signature can be obtained, since it is parsed from its own form. -/
theorem obtained (signature : Signature) : Obtained signature := by
  obtain ⟨r, s, recoveryId, rNonzero, sNonzero, sLow⟩ := signature
  cases recoveryId with
  | none =>
      exact .ofCompact
        (ofCompact_toCompact ⟨r, s, none, rNonzero, sNonzero, sLow⟩)
  | some recoveryId =>
      exact .ofCompactRecoverable (ofCompactRecoverable_toCompact
        ⟨r, s, none, rNonzero, sNonzero, sLow⟩ recoveryId)

theorem exists_toCompact_eq_iff {bytes : Bytes} {number : Option Nat} :
    (∃ signature, Obtained signature ∧ signature.toCompact = bytes ∧
        signature.recoveryId.map Fin.val = number) ↔
      bytes.length = 64 ∧
        MessageSignature.InRange (bigEndianValue (bytes.take 32))
          (bigEndianValue (bytes.drop 32)) ∧
        ∀ id ∈ number, id ≤ 3 := by
  rw [MessageSignature.inRange_iff]
  constructor
  · rintro ⟨signature, -, written, rfl⟩
    obtain ⟨width, rValue, sValue⟩ :=
      (eq_fields_iff (scalar_val_lt _) (scalar_val_lt _)).mp written.symm
    refine ⟨width, ⟨signature, rValue.symm, sValue.symm⟩, ?_⟩
    intro id member
    obtain ⟨recoveryId, -, rfl⟩ := Option.map_eq_some_iff.mp member
    exact Nat.le_of_lt_succ recoveryId.isLt
  · rintro ⟨width, ⟨signature, rValue, sValue⟩, numbered⟩
    have written : signature.toCompact = bytes :=
      ((eq_fields_iff (scalar_val_lt _) (scalar_val_lt _)).mpr
        ⟨width, rValue.symm, sValue.symm⟩).symm
    cases number with
    | none =>
        exact ⟨{ signature with recoveryId := none }, obtained _, written, rfl⟩
    | some id =>
        have small := numbered id rfl
        exact ⟨{ signature with recoveryId := some ⟨id, by omega⟩ },
          obtained _, written, rfl⟩

end Signature

theorem PrivateKey.signMessage_eq_encode (key : PrivateKey) (message : Bytes) :
    ∃ recoveryId : Fin 4,
      (key.sign (messageDigest message)).recoveryId = some recoveryId ∧
      key.signMessage message = Base64.encode
        (MessageSignature.headerOf recoveryId key.compressed ::
          (key.sign (messageDigest message)).toCompact) := by
  unfold signMessage
  generalize messageDigest message = digest
  obtain ⟨nonce, -, numbered⟩ := key.exists_signingEquation_sign digest
  generalize key.sign digest = signature at numbered
  exact ⟨_, numbered, @MessageSignature.toText_eq_spelling
    ⟨signature, key.compressed⟩ _ numbered⟩

namespace Signature

/-- Both forms of every signature that can be obtained lead back to its two
numbers, and the numbers, the recovery number and the lengths are within their
bounds.  The compact forms that are seen are all those of numbers within these
bounds.

The first and the third statement hold of every value of the type, whether or not
it is known to be obtained: `Signature` carries the bounds, which `checkedScalar`,
`checkedRecoveryId` and `normalized` establish where a value is made, and by
`obtained` there are no values but those that can be obtained. -/
theorem obtained_bounds :
    (∀ signature, Obtained signature →
      1 ≤ signature.r.val ∧ signature.r.val < groupOrder ∧
      1 ≤ signature.s.val ∧ signature.s.val ≤ (groupOrder - 1) / 2 ∧
      (∀ id ∈ signature.recoveryId, id.val ≤ 3) ∧
      (∃ again, ofCompact signature.toCompact = .ok again ∧
        again.sameScalars signature = true) ∧
      (∃ again, ofDer signature.toDer = .ok again ∧
        again.sameScalars signature = true) ∧
      signature.toDer.length ≤ 71) ∧
    (∀ bytes number,
      (∃ signature, Obtained signature ∧ signature.toCompact = bytes ∧
        signature.recoveryId.map Fin.val = number) ↔
      bytes.length = 64 ∧
        MessageSignature.InRange (bigEndianValue (bytes.take 32))
          (bigEndianValue (bytes.drop 32)) ∧
        ∀ id ∈ number, id ≤ 3) ∧
    (∀ first second, Obtained first → Obtained second →
      (first.sameScalars second = true ↔ first.toDer = second.toDer)) ∧
    (∀ (key : PrivateKey) message, ∃ recoveryId : Fin 4,
      (key.sign (messageDigest message)).recoveryId = some recoveryId ∧
      ∃ header : UInt8,
        header.toNat =
          27 + recoveryId.val + (if key.compressed then 4 else 0) ∧
        27 ≤ header.toNat ∧ header.toNat ≤ 34 ∧
        key.signMessage message = Base64.encode
          (header :: (key.sign (messageDigest message)).toCompact)) := by
  refine ⟨fun signature _ => ?_, fun _ _ => exists_toCompact_eq_iff,
    fun _ _ _ _ => toDer_eq_iff.symm, fun key message => ?_⟩
  · obtain ⟨rPositive, -, sPositive, sBound⟩ :=
      MessageSignature.inRange_iff.mpr ⟨signature, rfl, rfl⟩
    refine ⟨rPositive, signature.r.isLt, sPositive, sBound,
      fun id _ => Nat.le_of_lt_succ id.isLt,
      ⟨_, signature.ofCompact_toCompact, ?_⟩, ⟨_, signature.ofDer_toDer, ?_⟩,
      signature.length_toDer_le⟩
    · exact sameScalars_iff.mpr ⟨rfl, rfl⟩
    · exact sameScalars_iff.mpr ⟨rfl, rfl⟩
  · obtain ⟨recoveryId, numbered, written⟩ := key.signMessage_eq_encode message
    have value := MessageSignature.toNat_headerOf recoveryId key.compressed
    refine ⟨recoveryId, numbered, _, value, ?_, ?_, written⟩
    · rw [value]
      omega
    · rw [value]
      have bound := recoveryId.isLt
      split <;> omega

/-- A signature that was parsed with its second number too high and then
numbered. -/
theorem obtained_bounds_of_numbered_signature :
    let fields := bigEndian 32 1 ++ bigEndian 32 (groupOrder - 2)
    let parsed : Signature := ⟨1, 2, none, by decide, by decide, by decide⟩
    let numbered : Signature :=
      ⟨1, 2, some 3, by decide, by decide, by decide⟩
    ofCompact fields = .ok parsed ∧
      parsed.withRecoveryId 3 = .ok numbered ∧
      Obtained parsed ∧ Obtained numbered ∧
      1 ≤ numbered.s.val ∧ numbered.s.val ≤ (groupOrder - 1) / 2 ∧
      (∃ again, ofDer numbered.toDer = .ok again ∧
        again.sameScalars numbered = true) ∧
      numbered.toDer.length ≤ 71 ∧
      (parsed.sameScalars numbered = true ↔
        parsed.toDer = numbered.toDer) := by
  intro fields parsed numbered
  have read : ofCompact fields = .ok parsed := by decide
  have set : parsed.withRecoveryId 3 = .ok numbered := by decide
  have first : Obtained parsed := .ofCompact read
  have second : Obtained numbered := .withRecoveryId first set
  obtain ⟨bounds, -, equal, -⟩ := obtained_bounds
  obtain ⟨-, -, sPositive, sBound, -, -, again, short⟩ := bounds numbered second
  exact ⟨read, set, first, second, sPositive, sBound, again, short,
    equal parsed numbered first second⟩

end Signature

end CoinSpend
