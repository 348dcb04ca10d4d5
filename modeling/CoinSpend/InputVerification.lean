import CoinSpend.InputSigning
import CoinSpend.Interpreter

/-!
# Verifying inputs

An input is verified by running its unlocking script and the locking script of
the output it spends.  Signatures are checked against the transaction.
-/

namespace CoinSpend

namespace Transaction

/-- Decide a check against an input of a transaction.  An empty signature is
never valid.  The signature is parsed before the key, and the key before the
digest is computed. -/
def checkSignature (tx : Transaction) (index : Nat) : SignatureChecker :=
  fun check =>
    if check.signature = [] then .ok false
    else do
      let typed ← TypedSignature.ofBytes check.signature
      let key ← PublicKey.ofBytes check.publicKey
      let digest ← tx.signatureHash index typed.type check.scriptCode
      return key.verify digest typed.signature

/-- Whether an input satisfies the script of the output it spends. -/
def verifyInput (tx : Transaction) (index : Nat) (locking : Script) :
    Except Error Bool :=
  match tx.inputs[index]? with
  | none => .error (.inputIndexOutOfRange index tx.inputs.length)
  | some input =>
      verifyScripts (tx.checkSignature index) input.unlocking locking

end Transaction

/-- The signature and the public key of an unlocking script. -/
def Script.extract (script : Script) :
    Except Error (TypedSignature × PublicKey) :=
  match script.pattern with
  | .signatureAndKey signature publicKey => do
      let typed ← TypedSignature.ofBytes signature
      let key ← PublicKey.ofBytes publicKey
      return (typed, key)
  | found => .error (.script (.notSignatureAndKey found))

end CoinSpend
