import CoinSpend.HashType
import CoinSpend.Json
import CoinSpend.Transaction

/-!
# Transactions and names in JSON

A transaction is a record of records.  Digests and scripts are arrays of byte
numbers.
-/

namespace CoinSpend

namespace Json

/-- Bytes as an array of numbers. -/
def ofBytes (bytes : Bytes) : Json :=
  .array (bytes.map fun byte => ofNat byte.toNat)

def byte? (value : Json) : Option UInt8 := do
  return UInt8.ofNat (← value.natural? 256)

/-- The bytes that an array of numbers lists. -/
def bytes? (value : Json) : Option Bytes := do
  (← value.items?).mapM byte?

def word32? (value : Json) : Option UInt32 := do
  return UInt32.ofNat (← value.natural? UInt32.size)

def word64? (value : Json) : Option UInt64 := do
  return UInt64.ofNat (← value.natural? UInt64.size)

end Json

namespace OutPoint

def toJson (place : OutPoint) : Json :=
  .record [("hash", .ofBytes place.hash.toBytes),
    ("index", .ofNat place.index.toNat)]

def ofJson? (value : Json) : Option OutPoint := do
  match ← value.fields? ["hash", "index"] with
  | [hash, index] =>
      return ⟨← FixedBytes.ofBytes? 32 (← hash.bytes?), ← index.word32?⟩
  | _ => none

end OutPoint

namespace TxInput

def toJson (input : TxInput) : Json :=
  .record [("prevout", input.prevout.toJson),
    ("script_sig", .ofBytes input.unlocking.toBytes),
    ("sequence", .ofNat input.sequence.toNat)]

def ofJson? (value : Json) : Option TxInput := do
  match ← value.fields? ["prevout", "script_sig", "sequence"] with
  | [prevout, unlocking, sequence] =>
      return ⟨← OutPoint.ofJson? prevout, ⟨← unlocking.bytes?⟩,
        ← sequence.word32?⟩
  | _ => none

end TxInput

namespace TxOutput

def toJson (output : TxOutput) : Json :=
  .record [("value", .ofNat output.value.toNat),
    ("script_pubkey", .ofBytes output.locking.toBytes)]

def ofJson? (value : Json) : Option TxOutput := do
  match ← value.fields? ["value", "script_pubkey"] with
  | [amount, locking] => return ⟨← amount.word64?, ⟨← locking.bytes?⟩⟩
  | _ => none

end TxOutput

namespace Transaction

def toJson (tx : Transaction) : Json :=
  .record [("version", .ofNat tx.version.toNat),
    ("inputs", .array (tx.inputs.map TxInput.toJson)),
    ("outputs", .array (tx.outputs.map TxOutput.toJson)),
    ("lock_time", .ofNat tx.lockTime.toNat)]

def ofJson? (value : Json) : Option Transaction := do
  match ← value.fields? ["version", "inputs", "outputs", "lock_time"] with
  | [version, inputs, outputs, lockTime] =>
      return ⟨← version.word32?, ← (← inputs.items?).mapM TxInput.ofJson?,
        ← (← outputs.items?).mapM TxOutput.ofJson?, ← lockTime.word32?⟩
  | _ => none

/-- The transaction as a JSON text. -/
def toJsonText (tx : Transaction) : String :=
  tx.toJson.toText

/-- The transaction that a JSON text describes. -/
def ofJsonText? (text : String) : Option Transaction := do
  ofJson? (← Json.ofText? text)

end Transaction

/-- The name of a network in JSON and in requests. -/
def Network.label : Network → String
  | .mainnet => "mainnet"
  | .testnet => "testnet"

def Network.ofLabel? (label : String) : Option Network :=
  [Network.mainnet, Network.testnet].find? (·.label == label)

/-- The network that a JSON text names. -/
def Network.ofJsonText? (text : String) : Option Network := do
  ofLabel? (← (← Json.ofText? text).name?)

/-- The hash type that a JSON text names. -/
def HashType.ofJsonText? (text : String) : Option HashType := do
  let name ← (← Json.ofText? text).name?
  types.find? (·.name == name)

end CoinSpend
