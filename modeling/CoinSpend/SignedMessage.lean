import CoinSpend.CompactSize
import CoinSpend.Ecdsa

/-!
# Signed messages

A message is signed under a fixed preamble, so that no signature of a message is
one of a transaction.  The text of a message signature is the base 64 form of a
header byte and the two scalars.  The header holds the recovery number and tells
whether the signer's key is compressed.
-/

namespace CoinSpend

/-- The preamble of every message. -/
def messagePreamble : Bytes := utf8Bytes "Bitcoin Signed Message:\n"

/-- The digest that a message's signature signs. -/
def messageDigest (message : Bytes) : Digest :=
  doubleSha256 (lengthPrefixed messagePreamble ++ lengthPrefixed message)

/-- A signature of a message and the form of the signer's key. -/
structure MessageSignature where
  signature : Signature
  compressed : Bool
  deriving DecidableEq

namespace MessageSignature

/-- The lowest header byte. -/
def headerBase : Nat := 27

/-- What a header is larger by for a compressed key. -/
def compressedOffset : Nat := 4

/-- The header byte.  A signature without a recovery number is written as if it
had the number zero. -/
def header (signature : MessageSignature) : UInt8 :=
  UInt8.ofNat
    (headerBase + (signature.signature.recoveryId.getD 0).val +
      if signature.compressed then compressedOffset else 0)

def toText (signature : MessageSignature) : String :=
  Base64.encode (signature.header :: signature.signature.toCompact)

/-- The message signature that a text stands for. -/
def ofText (text : String) : Except Error MessageSignature := do
  let bytes ← (Base64.decode text).mapError fun fault =>
    .encoding (.base64 fault)
  match bytes with
  | [] => throw (.encoding (.messageSignatureLength 0))
  | header :: scalars =>
      if scalars.length ≠ 64 then
        throw (.encoding (.messageSignatureLength bytes.length))
      let offset := header.toNat - headerBase
      if header.toNat < headerBase ∨ 2 * compressedOffset ≤ offset then
        throw (.encoding (.messageSignatureHeader header))
      let signature ← Signature.ofCompactFields scalars
        (some (Fin.ofNat 4 offset))
      return ⟨signature, compressedOffset ≤ offset⟩

end MessageSignature

/-- The signature of a message as a text. -/
def PrivateKey.signMessage (key : PrivateKey) (message : Bytes) : String :=
  (MessageSignature.mk (key.sign (messageDigest message))
    key.compressed).toText

/-- The key that signed a message. -/
def recoverMessageSigner (message : Bytes) (signatureText : String) :
    Except Error PublicKey := do
  let signed ← MessageSignature.ofText signatureText
  let digest := messageDigest message
  let recovered ← signed.signature.recover digest
  let key := recovered.withCompression signed.compressed
  if key.verify digest signed.signature then return key
  else throw .verificationFailed

/-- Whether the key that signed a message has the given address. -/
def verifyMessage (addressText : String) (message : Bytes)
    (signatureText : String) : Except Error Bool := do
  let address ← Address.ofText addressText
  let signer ← recoverMessageSigner message signatureText
  return (signer.address address.network).toText == addressText

end CoinSpend
