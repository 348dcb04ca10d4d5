import CoinSpend.Proofs.HexForm
import CoinSpend.Proofs.WireForm

/-!
# Transactions and digests in hexadecimal

A transaction and a digest are read from a text exactly if it is the written text
of what is read, with letters of either case.  The text of a digest shows its
bytes in the opposite order, so the name of a transaction leads back to the digest
of its wire form.
-/

namespace CoinSpend

theorem FixedBytes.reverse_reverse {size : Nat} (bytes : FixedBytes size) :
    bytes.reverse.reverse = bytes := by
  apply FixedBytes.ext
  rw [toBytes_reverse, toBytes_reverse, List.reverse_reverse]

theorem Transaction.ofHex_eq_ok_iff {text : String} {tx : Transaction} :
    ofHex text = .ok tx ↔ tx.WireSized ∧ text.toLower = tx.toHex := by
  simp only [ofHex, toHex, Error.bind_eq_ok_iff, Error.mapError_eq_ok_iff,
    Hex.decode_eq_ok_iff]
  constructor
  · rintro ⟨bytes, lowers, accepted⟩
    obtain ⟨sized, rfl⟩ := wireForm_of_ofBytes accepted
    exact ⟨sized, lowers⟩
  · rintro ⟨sized, lowers⟩
    exact ⟨tx.toBytes, lowers, ofBytes_toBytes sized⟩

namespace Digest

theorem ofDisplay_eq_ok_iff {text : String} {digest : Digest} :
    ofDisplay text = .ok digest ↔ text.toLower = digest.toDisplay := by
  simp only [ofDisplay, toDisplay, Error.bind_eq_ok_iff,
    Error.mapError_eq_ok_iff, Hex.decode_eq_ok_iff]
  constructor
  · rintro ⟨bytes, lowers, read⟩
    split at read
    · cases read
    · rename_i displayed shown
      cases read
      rw [FixedBytes.reverse_reverse, lowers,
        FixedBytes.ofBytes?_eq_some_iff.mp shown]
  · intro lowers
    refine ⟨digest.reverse.toBytes, lowers, ?_⟩
    rw [FixedBytes.ofBytes?_eq_some_iff.mpr rfl]
    exact congrArg Except.ok (FixedBytes.reverse_reverse digest)

theorem ofDisplay_toDisplay (digest : Digest) :
    ofDisplay digest.toDisplay = .ok digest :=
  ofDisplay_eq_ok_iff.mpr (Hex.toLower_encode _)

end Digest

/-- A text is read as a transaction, or as a digest, exactly if lowering its
letters gives the text that is written for it.  The digits of a digest are those of
its bytes in the opposite order.  The name of a transaction is read as the place of
its output, with the digest of the wire form in the byte order of the wire. -/
theorem hexTexts_read_up_to_case :
    (∀ (text : String) (tx : Transaction),
      Transaction.ofHex text = .ok tx ↔
        tx.WireSized ∧ text.toLower = tx.toHex) ∧
    (∀ (text : String) (digest : Digest),
      Digest.ofDisplay text = .ok digest ↔ text.toLower = digest.toDisplay) ∧
    (∀ digest : Digest,
      Hex.decode digest.toDisplay = .ok digest.toBytes.reverse) ∧
    ∀ (tx : Transaction) (index : UInt32),
      OutPoint.ofId tx.txid index = .ok ⟨doubleSha256 tx.toBytes, index⟩ := by
  refine ⟨fun text tx => Transaction.ofHex_eq_ok_iff,
    fun text digest => Digest.ofDisplay_eq_ok_iff,
    fun digest => Hex.decode_encode _, fun tx index => ?_⟩
  rw [OutPoint.ofId, Transaction.txid, Digest.ofDisplay_toDisplay]
  rfl

end CoinSpend
