import CoinSpend.CompactSize
import CoinSpend.Script

/-!
# Transactions and their wire format

A transaction spends earlier outputs and creates new ones.  On the wire numbers
are little-endian, and the lists and scripts come after their counts.  Every
transaction has exactly one wire form.
-/

namespace CoinSpend

/-- The place of an output: the digest of its transaction, in the byte order of
the wire, and its index there. -/
structure OutPoint where
  hash : Digest
  index : UInt32
  deriving DecidableEq

structure TxInput where
  prevout : OutPoint
  /-- The script that satisfies the script of the spent output. -/
  unlocking : Script
  sequence : UInt32
  deriving DecidableEq

structure TxOutput where
  value : UInt64
  /-- The script that a spend has to satisfy. -/
  locking : Script
  deriving DecidableEq

structure Transaction where
  version : UInt32
  inputs : List TxInput
  outputs : List TxOutput
  lockTime : UInt32
  deriving DecidableEq

def OutPoint.toBytes (place : OutPoint) : Bytes :=
  place.hash.toBytes ++ littleEndian 4 place.index.toNat

def TxInput.toBytes (input : TxInput) : Bytes :=
  input.prevout.toBytes ++ lengthPrefixed input.unlocking.toBytes ++
    littleEndian 4 input.sequence.toNat

def TxOutput.toBytes (output : TxOutput) : Bytes :=
  littleEndian 8 output.value.toNat ++ lengthPrefixed output.locking.toBytes

/-- A list after its count. -/
def countPrefixed {α : Type} (itemBytes : α → Bytes) (items : List α) : Bytes :=
  CompactSize.encode items.length ++ items.flatMap itemBytes

/-- Read `count` items. -/
def readItems {α : Type} (item : Reading α) : (count : Nat) → Reading (List α)
  | 0 => return []
  | count + 1 => do
      let first ← item
      let rest ← readItems item count
      return first :: rest

/-- Read a list after its count. -/
def readCountPrefixed {α : Type} (item : Reading α) : Reading (List α) := do
  readItems item (← CompactSize.read)

def OutPoint.read : Reading OutPoint := do
  let hash ← readFixed 32
  let index ← readUInt32
  return ⟨hash, index⟩

def TxInput.read : Reading TxInput := do
  let prevout ← OutPoint.read
  let unlocking ← readLengthPrefixed
  let sequence ← readUInt32
  return ⟨prevout, ⟨unlocking⟩, sequence⟩

def TxOutput.read : Reading TxOutput := do
  let value ← readUInt64
  let locking ← readLengthPrefixed
  return ⟨value, ⟨locking⟩⟩

namespace Transaction

def toBytes (tx : Transaction) : Bytes :=
  littleEndian 4 tx.version.toNat ++ countPrefixed TxInput.toBytes tx.inputs ++
    countPrefixed TxOutput.toBytes tx.outputs ++
    littleEndian 4 tx.lockTime.toNat

/-- Read a transaction and leave what follows it. -/
def read : Reading Transaction := do
  let version ← readUInt32
  let inputs ← readCountPrefixed TxInput.read
  let outputs ← readCountPrefixed TxOutput.read
  let lockTime ← readUInt32
  return ⟨version, inputs, outputs, lockTime⟩

/-- The transaction that a byte string is the wire form of. -/
def ofBytes (bytes : Bytes) : Except Error Transaction :=
  match read.runFrom (.start bytes) with
  | (.error error, _) => .error error
  | (.ok tx, cursor) =>
      if cursor.unread = [] then .ok tx
      else .error (.trailingData cursor.unread.length)

/-- The wire form in hexadecimal. -/
def toHex (tx : Transaction) : String :=
  Hex.encode tx.toBytes

def ofHex (text : String) : Except Error Transaction := do
  ofBytes (← (Hex.decode text).mapError fun fault => .encoding (.hex fault))

/-- The length of a script after its count. -/
def scriptSize (script : Script) : Nat :=
  CompactSize.size script.size + script.size

/-- The length of the wire form, found without writing it. -/
def size (tx : Transaction) : Nat :=
  let inputSizes := tx.inputs.map fun input =>
    32 + 4 + scriptSize input.unlocking + 4
  let outputSizes := tx.outputs.map fun output =>
    8 + scriptSize output.locking
  4 + CompactSize.size tx.inputs.length + inputSizes.foldr (· + ·) 0 +
    CompactSize.size tx.outputs.length + outputSizes.foldr (· + ·) 0 + 4

/-- The digest of the wire form. -/
def hash (tx : Transaction) : Digest :=
  doubleSha256 tx.toBytes

/-- Change the input at an index, if there is one. -/
def modifyInput (tx : Transaction) (index : Nat) (change : TxInput → TxInput) :
    Transaction :=
  { tx with inputs := tx.inputs.modify index change }

/-- Change the output at an index, if there is one. -/
def modifyOutput (tx : Transaction) (index : Nat)
    (change : TxOutput → TxOutput) : Transaction :=
  { tx with outputs := tx.outputs.modify index change }

end Transaction

namespace Digest

/-- The text of a digest: its bytes in the opposite order, in hexadecimal. -/
def toDisplay (digest : Digest) : String :=
  Hex.encode digest.reverse.toBytes

def ofDisplay (text : String) : Except Error Digest := do
  let bytes ← (Hex.decode text).mapError fun fault => .encoding (.hex fault)
  match FixedBytes.ofBytes? 32 bytes with
  | none => throw (.encoding (.digestLength bytes.length))
  | some displayed => return displayed.reverse

end Digest

/-- The name of a transaction: the text of its digest. -/
def Transaction.txid (tx : Transaction) : String :=
  tx.hash.toDisplay

/-- The place of an output of a transaction with the given name. -/
def OutPoint.ofId (id : String) (index : UInt32) : Except Error OutPoint := do
  return ⟨← Digest.ofDisplay id, index⟩

end CoinSpend
