import CoinSpend.Signature
import CoinSpend.Signer

/-!
# Signing, verifying and recovering

The elliptic curve digital signature algorithm on secp256k1.  A signature of a
digest with number `z` under the secret `d` and the nonce `k` is the first
coordinate `r` of `k G`, and `s = (z + r d) / k`.

The nonces of RFC 6979 come from a generator that is seeded with the secret and
the digest to be signed.  Each candidate is the big-endian number in the
generator's current value.
-/

namespace CoinSpend

/-- The state of the generator: a key and the value last generated. -/
structure NonceSource where
  key : Bytes
  value : Bytes

namespace NonceSource

/-- Generate the next value under the same key. -/
def advance (source : NonceSource) : NonceSource :=
  { source with value := (Sha256.hmac source.key source.value).toBytes }

/-- Change the key by the current value and further input. -/
def rekey (source : NonceSource) (input : Bytes) : NonceSource :=
  advance ⟨(Sha256.hmac source.key (source.value ++ input)).toBytes,
    source.value⟩

/-- The generator at its first candidate. -/
def ofSeed (seed : Bytes) : NonceSource :=
  let blank := NonceSource.mk (List.replicate 32 0) (List.replicate 32 1)
  ((blank.rekey (0 :: seed)).rekey (1 :: seed)).advance

/-- The generator at the candidate after a rejected one. -/
def next (source : NonceSource) : NonceSource :=
  (source.rekey [0]).advance

def candidate (source : NonceSource) : Nat :=
  bigEndianValue source.value

end NonceSource

open Secp256k1

/-- The number of a digest as a scalar. -/
def Digest.scalar (digest : Digest) : Scalar :=
  Fin.ofNat groupOrder (bigEndianValue digest.toBytes)

/-- The recovery number of a nonce's point: its low bit is the parity of the
second coordinate, and its high bit tells that the first is not below the
order. -/
def recoveryIdOf (point : AffinePoint) : Fin 4 :=
  Fin.ofNat 4
    ((if groupOrder ≤ point.x.val then 2 else 0) + point.y.val % 2)

/-- The signature with a given nonce.  There is none if the nonce is not a
non-zero scalar, or if one of the two numbers comes out zero. -/
def signWithNonce (number secret : Scalar) (nonce : Nat) : Option Signature :=
  if nonce = 0 ∨ groupOrder ≤ nonce then none
  else
    match Point.multiple nonce (.affine generator) with
    | .infinity => none
    | .affine point =>
        let r := Fin.ofNat groupOrder point.x.val
        let s := inverse (Fin.ofNat groupOrder nonce) * (number + r * secret)
        if nonzero : r ≠ 0 ∧ s ≠ 0 then
          some (Signature.normalized r s (some (recoveryIdOf point))
            nonzero.1 nonzero.2)
        else none

/-- The first signature among the candidates of a generator, if one of the first
`fuel` candidates serves. -/
def searchNonce (attempt : Nat → Option Signature) :
    (fuel : Nat) → NonceSource → Option Signature
  | 0, _ => none
  | fuel + 1, source =>
      match attempt source.candidate with
      | some signature => some signature
      | none => searchNonce attempt fuel source.next

/-- A signature that stands in where no nonce serves, which never happens. -/
def placeholderSignature : Signature :=
  ⟨1, 1, some 0, by decide, by decide, by decide⟩

/-- The signature of a digest with the first candidate of a generator that
serves.  The standard searches without a limit.  Under a limit the nonces one
and two stand in when all candidates are rejected, because they cannot both be
rejected too. -/
def PrivateKey.signFrom (key : PrivateKey) (limit : Nat) (source : NonceSource)
    (digest : Digest) : Signature :=
  let attempt := signWithNonce digest.scalar key.secret
  ((searchNonce attempt limit source).or
    ((attempt 1).or (attempt 2))).getD placeholderSignature

/-- How many candidates are tried.  One is rejected with a probability below
one in `2 ^ 127`, and what signing guarantees does not depend on the limit. -/
def nonceLimit : Nat := 256

/-- The signature of a digest with the nonces of RFC 6979. -/
def PrivateKey.sign (key : PrivateKey) (digest : Digest) : Signature :=
  key.signFrom nonceLimit
    (NonceSource.ofSeed (key.secretBytes ++ bigEndian 32 digest.scalar.val))
    digest

/-- The combination of the generator and another point that verification and
recovery compute. -/
def linearCombination (ofGenerator ofPoint : Scalar) (point : AffinePoint) :
    Point :=
  Point.multiple ofGenerator.val (.affine generator) +
    Point.multiple ofPoint.val (.affine point)

/-- Whether a signature of a digest was made for a public key.  A second scalar
above half the order is refused too, but no signature has one, by
`Signature.s_low`. -/
def PublicKey.verify (key : PublicKey) (digest : Digest)
    (signature : Signature) : Bool :=
  let inverseS := inverse signature.s
  match linearCombination (digest.scalar * inverseS) (signature.r * inverseS)
      key.point with
  | .infinity => false
  | .affine point => Fin.ofNat groupOrder point.x.val == signature.r

/-- The point of the nonce that a signature with a recovery number was made
with. -/
def noncePoint? (r : Scalar) (recoveryId : Fin 4) : Option AffinePoint :=
  let x := if recoveryId.val < 2 then r.val else r.val + groupOrder
  if small : x < fieldPrime then
    pointAt? ⟨x, small⟩ (recoveryId.val % 2 == 1)
  else none

/-- The public key, in its uncompressed form, that a signature with a recovery
number was made for. -/
def Signature.recover (signature : Signature) (digest : Digest) :
    Except Error PublicKey :=
  match signature.recoveryId with
  | none => .error (.recoveryFailed .noRecoveryId)
  | some recoveryId =>
      match noncePoint? signature.r recoveryId with
      | none => .error (.recoveryFailed .noPoint)
      | some point =>
          let inverseR := inverse signature.r
          match linearCombination (-(digest.scalar * inverseR))
              (signature.s * inverseR) point with
          | .infinity => .error (.recoveryFailed .noPoint)
          | .affine recovered => .ok ⟨recovered, false⟩

end CoinSpend
