import CoinSpend.Proofs.ScriptPatterns
import CoinSpend.Proofs.SignedMessages

/-!
# What the text of an address stands for

A text is accepted as an address only if it is the guarded form of a network's
version and twenty bytes.  So the address of an accepted text has that text
alone, and comparing texts is comparing key hashes.
-/

namespace CoinSpend

/-- An address is paid to by the script that names its key hash. -/
theorem Script.payToAddress_eq_ok_iff {text : String} {script : Script} :
    payToAddress text = .ok script ↔
      ∃ address, Address.ofText text = .ok address ∧
        script = payToKeyHash address.keyHash := by
  unfold payToAddress
  rw [Error.bind_eq_ok_iff]
  refine exists_congr fun address => and_congr_right fun _ => ?_
  change Except.ok _ = _ ↔ _
  rw [Except.ok.injEq, eq_comm]

namespace Address

variable {text : String} {network : Network}

theorem exists_ofText_eq_ok_iff {payload : Bytes} :
    (∃ keyHash : KeyHash, ofText text = .ok ⟨network, keyHash⟩ ∧
        keyHash.toBytes = payload) ↔
      payload.length = 20 ∧
        text = Base58Check.encode network.addressVersion payload := by
  simp only [ofText_eq_ok_iff]
  constructor
  · rintro ⟨keyHash, rfl, rfl⟩
    exact ⟨keyHash.length_toBytes, rfl⟩
  · rintro ⟨length, rfl⟩
    exact ⟨⟨payload, length⟩, rfl, rfl⟩

/-- An accepted text is the guarded form of a network's version and a key hash,
it is paid to by the script of that key hash, and a message is told to be signed
by it exactly if the signer's key has that hash. -/
theorem ofText_names_keyHash (text : String) :
    (∀ network payload,
      (∃ keyHash : KeyHash, ofText text = .ok ⟨network, keyHash⟩ ∧
          keyHash.toBytes = payload) ↔
        payload.length = 20 ∧
          text = Base58Check.encode network.addressVersion payload) ∧
      ∀ network keyHash, ofText text = .ok ⟨network, keyHash⟩ →
        Script.payToAddress text = .ok (Script.payToKeyHash keyHash) ∧
          (Script.payToKeyHash keyHash).keyHash? = some keyHash ∧
          ∀ message signatureText signer,
            recoverMessageSigner message signatureText = .ok signer →
              verifyMessage text message signatureText =
                .ok (decide (signer.hash = keyHash)) := by
  refine ⟨fun _ _ => exists_ofText_eq_ok_iff,
    fun network keyHash read => ⟨?_, ?_, ?_⟩⟩
  · exact Script.payToAddress_eq_ok_iff.mpr ⟨_, read, rfl⟩
  · exact Script.keyHash?_eq_some_iff.mpr (Script.elements_payToKeyHash keyHash)
  · intro message signatureText signer recovered
    rw [verifyMessage_eq_ok_decide read recovered, Except.ok.injEq,
      decide_eq_decide]
    exact eq_comm

theorem ofText_names_keyHash_of_unit_secret :
    let key : PrivateKey := ⟨1, true, .testnet, by decide⟩
    let keyHash := key.publicKey.hash
    let text := "mrCDrCybB6J1vRfbwM5hemdJz73FwDBC8r"
    ofText text = .ok ⟨.testnet, keyHash⟩ ∧
      Script.payToAddress text = .ok (Script.payToKeyHash keyHash) ∧
      recoverMessageSigner [0x61] (key.signMessage [0x61]) =
        .ok key.publicKey ∧
      verifyMessage text [0x61] (key.signMessage [0x61]) = .ok true := by
  intro key keyHash text
  have read : ofText text = .ok ⟨.testnet, keyHash⟩ := by decide +kernel
  have recovered := recoverMessageSigner_signMessage key [0x61]
  obtain ⟨pays, -, decided⟩ := (ofText_names_keyHash text).2 _ _ read
  refine ⟨read, pays, recovered, ?_⟩
  rw [decided _ _ _ recovered, decide_eq_true rfl]

end Address

end CoinSpend
