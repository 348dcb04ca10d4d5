import CoinSpend.HashType
import CoinSpend.Transaction

/-!
# What a signature signs

The digest of a copy of the transaction from which everything is removed that the
hash type does not commit to.  All unlocking scripts are emptied, and the signed
input takes the script of the output that it spends.
-/

namespace CoinSpend

/-- The digest that stands for a missing output at the index of the input. -/
def missingOutputDigest : Digest :=
  ⟨1 :: List.replicate 31 0, by decide⟩

/-- The output that fills the places before the signed one. -/
def blankOutput : TxOutput where
  value := 0xffffffffffffffff
  locking := .empty

namespace Transaction

/-- An input other than the signed one, in the signed copy. -/
def otherInput (type : HashType) (input : TxInput) : TxInput :=
  { input with
    unlocking := .empty
    sequence := if type.outputs = .all then input.sequence else 0 }

/-- The inputs of the signed copy. -/
def committedInputs (tx : Transaction) (index : Nat) (type : HashType)
    (scriptCode : Script) : List TxInput :=
  let prepared := tx.inputs.mapIdx fun place input =>
    if place = index then { input with unlocking := scriptCode }
    else otherInput type input
  if type.anyoneCanPay then prepared[index]?.toList else prepared

/-- The outputs of the signed copy. -/
def committedOutputs (tx : Transaction) (index : Nat) (type : HashType) :
    List TxOutput :=
  match type.outputs with
  | .all => tx.outputs
  | .none => []
  | .single =>
      (tx.outputs.take (index + 1)).mapIdx fun place output =>
        if place < index then blankOutput else output

/-- The copy that is signed. -/
def committedCopy (tx : Transaction) (index : Nat) (type : HashType)
    (scriptCode : Script) : Transaction :=
  { tx with
    inputs := tx.committedInputs index type scriptCode
    outputs := tx.committedOutputs index type }

/-- The byte string that is hashed for a signature: the signed copy and the
code of the hash type. -/
def signaturePreimage (tx : Transaction) (index : Nat) (type : HashType)
    (scriptCode : Script) : Bytes :=
  (tx.committedCopy index type scriptCode).toBytes ++
    littleEndian 4 type.code.toNat

/-- The digest that the signature of an input signs. -/
def signatureHash (tx : Transaction) (index : Nat) (type : HashType)
    (scriptCode : Script) : Except Error Digest :=
  if tx.inputs.length ≤ index then
    .error (.inputIndexOutOfRange index tx.inputs.length)
  else if type.outputs = .single ∧ tx.outputs.length ≤ index then
    .ok missingOutputDigest
  else .ok (doubleSha256 (tx.signaturePreimage index type scriptCode))

end Transaction

end CoinSpend
