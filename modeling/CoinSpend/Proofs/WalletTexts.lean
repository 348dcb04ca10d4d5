import CoinSpend.Signer
import CoinSpend.Proofs.TextForms

/-!
# A wallet text holds one private key

The text of a key is the guarded form of its secret and the flag of a compressed
public key, under a version byte of its network.  The length of what follows the
version tells the flag apart from a last byte of the secret.  No version byte of
a wallet text is one of an address.
-/

namespace CoinSpend

open Secp256k1

namespace Network

theorem secretVersion_ne_addressVersion (first second : Network) :
    first.secretVersion ≠ second.addressVersion := by
  cases first <;> cases second <;> decide

end Network

namespace PrivateKey

variable {key : PrivateKey} {network : Network} {bytes : Bytes}

theorem length_secretBytes (key : PrivateKey) : key.secretBytes.length = 32 :=
  bigEndian_length 32 _

theorem bigEndianValue_secretBytes (key : PrivateKey) :
    bigEndianValue key.secretBytes = key.secret.val := by
  have fits : key.secret.val < 256 ^ 32 :=
    Nat.lt_trans key.secret.isLt (by decide)
  rw [secretBytes, bigEndianValue_bigEndian, Nat.mod_eq_of_lt fits]

theorem ofBytes_eq_ok_iff_secretBytes {compressed : Bool} :
    ofBytes bytes network compressed = .ok key ↔
      bytes = key.secretBytes ∧ network = key.network ∧
        compressed = key.compressed := by
  constructor
  · intro read
    unfold ofBytes at read
    split at read
    · contradiction
    · rename_i width
      dsimp only at read
      split at read
      · cases read
        have written := bigEndian_bigEndianValue bytes
        rw [Decidable.not_not.mp width] at written
        exact ⟨written.symm, rfl, rfl⟩
      · contradiction
  · rintro ⟨rfl, rfl, rfl⟩
    have nonzero : key.secret.val ≠ 0 := fun isZero =>
      key.secret_ne_zero (Fin.ext isZero)
    simp only [ofBytes, length_secretBytes, bigEndianValue_secretBytes]
    rw [if_neg (by decide), dif_pos ⟨nonzero, key.secret.isLt⟩]

/-- What a wallet text holds after the version byte. -/
def payload (key : PrivateKey) : Bytes :=
  key.secretBytes ++ if key.compressed then [compressionFlag] else []

/-- The key of what a wallet text holds after the version byte. -/
def ofPayload (network : Network) (bytes : Bytes) : Except Error PrivateKey :=
  match bytes.drop 32 with
  | [] =>
      if bytes.length = 32 then ofBytes bytes network false
      else throw (.encoding (.secretLength bytes.length))
  | [flag] =>
      if flag = compressionFlag then ofBytes (bytes.take 32) network true
      else throw (.encoding (.secretCompressionFlag flag))
  | _ => throw (.encoding (.secretLength bytes.length))

theorem ofPayload_payload (key : PrivateKey) :
    ofPayload key.network key.payload = .ok key := by
  have width := key.length_secretBytes
  unfold ofPayload payload
  rw [List.drop_left' width]
  cases form : key.compressed with
  | false =>
      simp only [Bool.false_eq_true, if_false, List.append_nil, width, if_true]
      exact ofBytes_eq_ok_iff_secretBytes.mpr ⟨rfl, rfl, form.symm⟩
  | true =>
      simp only [if_true, List.take_left' width]
      exact ofBytes_eq_ok_iff_secretBytes.mpr ⟨rfl, rfl, form.symm⟩

theorem eq_payload_of_ofPayload (read : ofPayload network bytes = .ok key) :
    network = key.network ∧ bytes = key.payload := by
  unfold ofPayload at read
  unfold payload
  split at read
  · split at read
    · obtain ⟨rfl, rfl, form⟩ := ofBytes_eq_ok_iff_secretBytes.mp read
      rw [← form, if_neg Bool.false_ne_true, List.append_nil]
      exact ⟨rfl, rfl⟩
    · contradiction
  · rename_i flag last
    split at read
    · rename_i flagEq
      obtain ⟨secretEq, rfl, form⟩ := ofBytes_eq_ok_iff_secretBytes.mp read
      rw [← form, if_pos rfl, ← secretEq, ← flagEq, ← last,
        List.take_append_drop]
      exact ⟨rfl, rfl⟩
    · contradiction
  · contradiction

theorem ofWif_eq_ok_iff_decode {text : String} :
    ofWif text = .ok key ↔
      ∃ network bytes,
        Base58Check.decode text = .ok (network.secretVersion, bytes) ∧
          ofPayload network bytes = .ok key := by
  unfold ofWif
  rw [Error.bind_eq_ok_iff]
  constructor
  · rintro ⟨⟨version, bytes⟩, decoded, read⟩
    dsimp only at read
    split at read
    · contradiction
    · rename_i network versionEq
      rw [Network.ofSecretVersion?_eq_some_iff.mp versionEq] at decoded
      exact ⟨network, bytes, decoded, read⟩
  · rintro ⟨network, bytes, decoded, read⟩
    refine ⟨_, decoded, ?_⟩
    simp only [Network.ofSecretVersion?_eq_some_iff.mpr rfl]
    exact read

theorem ofWif_eq_ok_iff {text : String} :
    ofWif text = .ok key ↔ text = key.toWif := by
  rw [ofWif_eq_ok_iff_decode]
  constructor
  · rintro ⟨network, bytes, decoded, read⟩
    obtain ⟨rfl, rfl⟩ := eq_payload_of_ofPayload read
    exact Base58Check.decode_eq_ok_iff.mp decoded
  · intro written
    exact ⟨_, _, Base58Check.decode_eq_ok_iff.mpr written,
      ofPayload_payload key⟩

theorem toWif_injective : Function.Injective toWif := by
  intro first second same
  have read := ofWif_eq_ok_iff.mpr same
  rw [ofWif_eq_ok_iff.mpr rfl] at read
  exact Except.ok.inj read

/-- The version byte tells wallet texts from addresses. -/
theorem toWif_ne_toText (key : PrivateKey) (address : Address) :
    key.toWif ≠ address.toText := by
  intro same
  have decoded := Base58Check.decode_eq_ok_iff.mpr same
  rw [toWif, Base58Check.decode_eq_ok_iff.mpr rfl, Except.ok.injEq,
    Prod.mk.injEq] at decoded
  exact Network.secretVersion_ne_addressVersion _ _ decoded.1

/-- A text is read as a key exactly if it is the wallet text of the key.  Keys
that differ in a part have different wallet texts, and no text is read both as a
key and as an address. -/
theorem ofWif_inverts_toWif :
    (∀ text key, ofWif text = .ok key ↔ text = key.toWif) ∧
      (∀ first second : PrivateKey, first.toWif = second.toWif ↔
        first.secret = second.secret ∧ first.network = second.network ∧
          first.compressed = second.compressed) ∧
      ∀ text, ¬ ((∃ key, ofWif text = .ok key) ∧
        ∃ address, Address.ofText text = .ok address) := by
  refine ⟨fun text key => ofWif_eq_ok_iff, fun first second => ?_,
    fun text both => ?_⟩
  · rw [toWif_injective.eq_iff]
    cases first
    cases second
    simp only [mk.injEq]
    tauto
  · obtain ⟨⟨key, readKey⟩, address, readAddress⟩ := both
    apply key.toWif_ne_toText address
    rw [← ofWif_eq_ok_iff.mp readKey, Address.ofText_eq_ok_iff.mp readAddress]

end PrivateKey

end CoinSpend
