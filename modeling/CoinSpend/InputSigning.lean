import CoinSpend.Ecdsa
import CoinSpend.SignatureHash

/-!
# Signing inputs

Signing an input writes its unlocking script: the signature with its hash type,
and the public key.  A batch is signed as a whole or not at all.
-/

namespace CoinSpend

/-- A signature with the hash type that it was made for. -/
structure TypedSignature where
  signature : Signature
  type : HashType
  deriving DecidableEq

namespace TypedSignature

def toBytes (typed : TypedSignature) : Bytes :=
  typed.signature.toDer ++ [typed.type.toByte]

/-- The hash type, which is the last byte, is examined before the rest. -/
def ofBytes (bytes : Bytes) : Except Error TypedSignature :=
  match bytes.getLast? with
  | none => .error (.encoding .emptySignature)
  | some last => do
      let type ← HashType.ofByte last
      let signature ← Signature.ofDer bytes.dropLast
      return ⟨signature, type⟩

end TypedSignature

/-- What it takes to sign an input. -/
structure SigningRequest where
  inputIndex : Nat
  type : HashType
  key : PrivateKey
  /-- The script of the output that the input spends. -/
  locking : Script
  deriving DecidableEq

namespace Transaction

/-- The unlocking script that fulfils a request. -/
def unlockingScript (tx : Transaction) (request : SigningRequest) :
    Except Error Script := do
  let digest ←
    tx.signatureHash request.inputIndex request.type request.locking
  let typed := TypedSignature.mk (request.key.sign digest) request.type
  return .signatureAndKey typed.toBytes request.key.publicKey.toBytes

/-- Replace the unlocking script of an input. -/
def setUnlocking (tx : Transaction) (index : Nat) (unlocking : Script) :
    Transaction :=
  tx.modifyInput index fun input => { input with unlocking }

/-- Sign one input. -/
def signInput (tx : Transaction) (request : SigningRequest) :
    Except Error Transaction := do
  return tx.setUnlocking request.inputIndex (← tx.unlockingScript request)

/-- The earliest element that has occurred before it. -/
def firstRepeated? : (seen rest : List Nat) → Option Nat
  | _, [] => none
  | seen, index :: rest =>
      if index ∈ seen then some index else firstRepeated? (index :: seen) rest

/-- Sign the inputs of a batch, all against the transaction as it was before.
A repeated input is reported before any other failure. -/
def signInputs (tx : Transaction) (requests : List SigningRequest) :
    Except Error Transaction :=
  match firstRepeated? [] (requests.map SigningRequest.inputIndex) with
  | some index => .error (.duplicateInput index)
  | none => do
      let scripts ← requests.mapM tx.unlockingScript
      return (requests.zip scripts).foldl
        (fun signed (request, script) =>
          signed.setUnlocking request.inputIndex script) tx

end Transaction

/-- One call that signs: a single input, or a batch. -/
inductive SigningCall
  | single (request : SigningRequest)
  | batch (requests : List SigningRequest)
  deriving DecidableEq

namespace Transaction

/-- The transaction after a call that signs. -/
def sign (tx : Transaction) : SigningCall → Except Error Transaction
  | .single request => tx.signInput request
  | .batch requests => tx.signInputs requests

/-- The transaction after a run of calls.  A call that fails changes nothing. -/
def signAll (tx : Transaction) (calls : List SigningCall) : Transaction :=
  calls.foldl
    (fun signed call =>
      match signed.sign call with
      | .ok next => next
      | .error _ => signed) tx

end Transaction

end CoinSpend
