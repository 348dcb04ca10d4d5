import CoinSpend.Digest
import CoinSpend.Text

/-!
# Scripts and their elements

A script is kept as its bytes.  Read as a program it is a list of operations and
data pushes, and some short programs are recognised as standard patterns.
-/

namespace CoinSpend

/-- An operation of the script language.  Those that a spend of a key hash needs
are named, and every other one is known by its byte. -/
inductive Opcode
  | dup
  | hash160
  | equal
  | equalVerify
  | checkSig
  | other (byte : UInt8)
  deriving DecidableEq

namespace Opcode

def ofByte (byte : UInt8) : Opcode :=
  if byte = 0x76 then .dup
  else if byte = 0xa9 then .hash160
  else if byte = 0x87 then .equal
  else if byte = 0x88 then .equalVerify
  else if byte = 0xac then .checkSig
  else .other byte

def toByte : Opcode → UInt8
  | .dup => 0x76
  | .hash160 => 0xa9
  | .equal => 0x87
  | .equalVerify => 0x88
  | .checkSig => 0xac
  | .other byte => byte

@[simp]
theorem toByte_ofByte (byte : UInt8) : (ofByte byte).toByte = byte := by
  unfold ofByte
  repeat' split
  all_goals simp_all [toByte]

/-- The name under which a script's text shows the operation. -/
def name : Opcode → String
  | .dup => "OP_DUP"
  | .hash160 => "OP_HASH160"
  | .equal => "OP_EQUAL"
  | .equalVerify => "OP_EQUALVERIFY"
  | .checkSig => "OP_CHECKSIG"
  | .other byte => "OP_UNKNOWN_0x" ++ hexNumber byte.toNat

end Opcode

/-- One step of a script. -/
inductive ScriptElement
  | op (code : Opcode)
  | push (data : Bytes)
  deriving DecidableEq

/-- What a script is recognised as. -/
inductive ScriptPattern
  | empty
  | payToKeyHash (keyHash : KeyHash)
  | signatureAndKey (signature publicKey : Bytes)
  | nonStandard
  deriving DecidableEq

/-- A script, as its bytes. -/
structure Script where
  toBytes : Bytes
  deriving DecidableEq

namespace Script

/-- The script of no bytes. -/
def empty : Script := ⟨[]⟩

/-- The number of bytes. -/
def size (script : Script) : Nat := script.toBytes.length

/-- The largest size of a script that is executed. -/
def maxSize : Nat := 10000

/-- The largest size of one push that is executed. -/
def maxPushSize : Nat := 520

end Script

end CoinSpend
