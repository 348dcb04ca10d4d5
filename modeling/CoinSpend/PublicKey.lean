import CoinSpend.Error
import CoinSpend.Secp256k1

/-!
# Public keys and addresses

A public key is a point with a choice of form.  The compressed form holds the
first coordinate and the parity of the second, the other form holds both.

A version byte and a payload, followed by their checksum, have a text form in
base 58.  An address is the text form of the hash of a key on a network.
-/

namespace CoinSpend

open Secp256k1

structure PublicKey where
  point : AffinePoint
  compressed : Bool
  deriving DecidableEq

namespace PublicKey

/-- A coordinate as a big-endian field. -/
def coordinateBytes (coordinate : Coordinate) : Bytes :=
  bigEndian 32 coordinate.val

/-- The key in its own form. -/
def toBytes (key : PublicKey) : Bytes :=
  let x := coordinateBytes key.point.x
  if key.compressed then
    (if key.point.y.val % 2 = 1 then 0x03 else 0x02) :: x
  else 0x04 :: (x ++ coordinateBytes key.point.y)

/-- A big-endian field as a coordinate, if its number is below the modulus. -/
def coordinate? (bytes : Bytes) : Option Coordinate :=
  let number := bigEndianValue bytes
  if small : number < fieldPrime then some ⟨number, small⟩ else none

/-- The point of a compressed form after its first byte. -/
def compressedPoint? (odd : Bool) (field : Bytes) : Option AffinePoint := do
  pointAt? (← coordinate? field) odd

/-- The point of an uncompressed form after its first byte. -/
def uncompressedPoint? (fields : Bytes) : Option AffinePoint := do
  let point := AffinePoint.mk (← coordinate? (fields.take 32))
    (← coordinate? (fields.drop 32))
  guard point.OnCurve
  return point

/-- The key of a point that was found, if it was. -/
def ofPoint? (compressed : Bool) : Option AffinePoint → Except Error PublicKey
  | some point => .ok ⟨point, compressed⟩
  | none => .error .pointNotOnCurve

/-- The key that a byte string encodes.  The length tells the form, and the
first byte has to agree with it. -/
def ofBytes (bytes : Bytes) : Except Error PublicKey :=
  match bytes with
  | [] => .error (.encoding (.publicKeyLength 0))
  | form :: fields =>
      if fields.length = 32 then
        if form = 0x02 ∨ form = 0x03 then
          ofPoint? true (compressedPoint? (form == 0x03) fields)
        else .error (.encoding (.publicKeyForm form))
      else if fields.length = 64 then
        if form = 0x04 then ofPoint? false (uncompressedPoint? fields)
        else .error (.encoding (.publicKeyForm form))
      else .error (.encoding (.publicKeyLength (fields.length + 1)))

/-- The same point in the given form. -/
def withCompression (key : PublicKey) (compressed : Bool) : PublicKey :=
  { key with compressed }

/-- The name of the key in its own form. -/
def hash (key : PublicKey) : KeyHash :=
  hash160 key.toBytes

end PublicKey

namespace Base58Check

/-- The text form of a payload under a version byte. -/
def encode (version : UInt8) (payload : Bytes) : String :=
  let guarded := version :: payload
  Base58.encode (guarded ++ checksum guarded)

/-- The version byte and payload of a text form. -/
def decode (text : String) : Except Error (UInt8 × Bytes) := do
  let bytes ← (Base58.decode text).mapError .base58
  if bytes.length < 4 then throw (.base58 .missingChecksum)
  let guarded := bytes.take (bytes.length - 4)
  if bytes.drop (bytes.length - 4) ≠ checksum guarded then
    throw .checksumMismatch
  match guarded with
  | [] => throw (.base58 .missingVersion)
  | version :: payload => return (version, payload)

end Base58Check

structure Address where
  network : Network
  keyHash : KeyHash
  deriving DecidableEq

namespace Address

def toText (address : Address) : String :=
  Base58Check.encode address.network.addressVersion address.keyHash.toBytes

/-- The address that a text stands for.  The version is examined before the
length. -/
def ofText (text : String) : Except Error Address := do
  let (version, payload) ← Base58Check.decode text
  match Network.ofAddressVersion? version with
  | none => throw (.encoding (.addressVersion version))
  | some network =>
      match FixedBytes.ofBytes? 20 payload with
      | none => throw (.encoding (.addressLength payload.length))
      | some keyHash => return ⟨network, keyHash⟩

end Address

/-- The address of a key in its own form. -/
def PublicKey.address (key : PublicKey) (network : Network) : Address :=
  ⟨network, key.hash⟩

end CoinSpend
