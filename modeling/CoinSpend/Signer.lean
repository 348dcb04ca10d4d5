import CoinSpend.PublicKey

/-!
# Private keys and signers

A private key is a non-zero scalar, with the network it is for and the form that
its public key takes.  Its wallet text holds all three: the version byte tells
the network, and a byte `01` after the secret tells the compressed form.

A signer holds the network that its keys and addresses are for, and refuses keys
that were exported for another one.
-/

namespace CoinSpend

open Secp256k1

structure PrivateKey where
  secret : Scalar
  compressed : Bool
  network : Network
  secret_ne_zero : secret ≠ 0
  deriving DecidableEq

namespace PrivateKey

def secretBytes (key : PrivateKey) : Bytes :=
  bigEndian 32 key.secret.val

/-- The key of a big-endian secret of 32 bytes. -/
def ofBytes (bytes : Bytes) (network : Network) (compressed : Bool) :
    Except Error PrivateKey :=
  if bytes.length ≠ 32 then .error (.secret (.length bytes.length))
  else
    let number := bigEndianValue bytes
    if range : number ≠ 0 ∧ number < groupOrder then
      .ok ⟨⟨number, range.2⟩, compressed, network,
        fun isZero => range.1 (congrArg Fin.val isZero)⟩
    else .error (.secret .range)

/-- The byte after the secret of a key whose public key is compressed. -/
def compressionFlag : UInt8 := 0x01

def toWif (key : PrivateKey) : String :=
  Base58Check.encode key.network.secretVersion
    (key.secretBytes ++ if key.compressed then [compressionFlag] else [])

/-- The key that a wallet text stands for.  The version is examined first, then
the length and the compression flag, then the secret. -/
def ofWif (text : String) : Except Error PrivateKey := do
  let (version, payload) ← Base58Check.decode text
  match Network.ofSecretVersion? version with
  | none => throw (.encoding (.secretVersion version))
  | some network =>
      match payload.drop 32 with
      | [] =>
          if payload.length = 32 then ofBytes payload network false
          else throw (.encoding (.secretLength payload.length))
      | [flag] =>
          if flag = compressionFlag then
            ofBytes (payload.take 32) network true
          else throw (.encoding (.secretCompressionFlag flag))
      | _ => throw (.encoding (.secretLength payload.length))

/-- The multiple of the generator by the secret.  It is never the point at
infinity, because the secret is below the order. -/
def publicPoint (key : PrivateKey) : AffinePoint :=
  match Point.multiple key.secret.val (.affine generator) with
  | .affine point => point
  | .infinity => generator

def publicKey (key : PrivateKey) : PublicKey :=
  ⟨key.publicPoint, key.compressed⟩

/-- The address of the public key on the key's own network. -/
def address (key : PrivateKey) : Address :=
  key.publicKey.address key.network

/-- A description that does not show the secret. -/
def describe (key : PrivateKey) : String :=
  "PrivateKey \x7b secret: \"<redacted>\", compressed: " ++
    (if key.compressed then "true" else "false") ++ ", network: " ++
    key.network.name ++ " \x7d"

end PrivateKey

structure Signer where
  network : Network
  deriving DecidableEq

namespace Signer

/-- The key of a wallet text for the signer's network. -/
def importKey (signer : Signer) (text : String) : Except Error PrivateKey := do
  let key ← PrivateKey.ofWif text
  if key.network ≠ signer.network then
    throw (.encoding (.secretNetwork key.network signer.network))
  return key

/-- A fresh key for the signer's network: the first of a sequence of random
draws that is the secret of one. -/
def generateKey? (signer : Signer) (compressed : Bool) :
    (draws : List Bytes) → Option PrivateKey
  | [] => none
  | draw :: draws =>
      match PrivateKey.ofBytes draw signer.network compressed with
      | .ok key => some key
      | .error _ => generateKey? signer compressed draws

/-- The address of a key on the signer's network. -/
def address (signer : Signer) (key : PublicKey) : Address :=
  key.address signer.network

end Signer

end CoinSpend
