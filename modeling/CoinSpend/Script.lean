import CoinSpend.Cursor
import CoinSpend.PublicKey

/-!
# Parsing, building and recognising scripts

A push announces its length in its first byte, or in a field of one, two or four
bytes after it.  Every other byte is an operation.  Building uses the shortest
form of each push, and parsing accepts them all.
-/

namespace CoinSpend

/-- Where the length of a push is found. -/
inductive PushForm
  | direct (length : Nat)
  | field (width : Nat)
  deriving DecidableEq

/-- The form of the push that a byte begins, if it does begin one. -/
def PushForm.ofByte? (byte : UInt8) : Option PushForm :=
  if byte < 0x4c then some (.direct byte.toNat)
  else if byte = 0x4c then some (.field 1)
  else if byte = 0x4d then some (.field 2)
  else if byte = 0x4e then some (.field 4)
  else none

/-- Read the length of a push after its first byte. -/
def PushForm.readLength : PushForm → Reading Nat
  | .direct length => return length
  | .field width => readNumber width

/-- The bytes in front of pushed data of the given length. -/
def pushHeader (length : Nat) : Bytes :=
  if length < 0x4c then [UInt8.ofNat length]
  else if length ≤ 0xff then 0x4c :: littleEndian 1 length
  else if length ≤ 0xffff then 0x4d :: littleEndian 2 length
  else 0x4e :: littleEndian 4 length

namespace ScriptElement

def toBytes : ScriptElement → Bytes
  | .op code => [code.toByte]
  | .push data => pushHeader data.length ++ data

/-- Read one element.  Missing data is a fault of the script, while a length
field that is cut short is a truncated read. -/
def read : Reading ScriptElement := do
  let byte ← readUInt8
  match PushForm.ofByte? byte with
  | none => return .op (.ofByte byte)
  | some form =>
      let length ← form.readLength
      let data ← ExceptT.adapt (fun _ => .script (.pushPastEnd length))
        (readBytes length)
      return .push data

def isPush : ScriptElement → Bool
  | .op _ => false
  | .push _ => true

/-- The word that stands for the element in a script's text. -/
def text : ScriptElement → String
  | .op code => code.name
  | .push [] => "OP_0"
  | .push data => Hex.encode data

end ScriptElement

namespace Script

/-- The elements from a cursor to the end.  Each takes at least one byte, so
the number of unread bytes is enough fuel. -/
def elementsFrom : (fuel : Nat) → Cursor → Except Error (List ScriptElement)
  | 0, _ => .ok []
  | fuel + 1, cursor =>
      if cursor.unread = [] then .ok []
      else
        match ScriptElement.read.runFrom cursor with
        | (.error error, _) => .error error
        | (.ok element, next) => do
            return element :: (← elementsFrom fuel next)

/-- The elements of a script. -/
def elements (script : Script) : Except Error (List ScriptElement) :=
  elementsFrom script.size (.start script.toBytes)

/-- The script of a list of elements, each push in its shortest form. -/
def ofElements (elements : List ScriptElement) : Script :=
  ⟨elements.flatMap ScriptElement.toBytes⟩

/-- The script of the given bytes, if they parse. -/
def parse (bytes : Bytes) : Except Error Script := do
  let _ ← (Script.mk bytes).elements
  return ⟨bytes⟩

/-- Whether the script parses and holds only pushes. -/
def isPushOnly (script : Script) : Bool :=
  match script.elements with
  | .ok elements => elements.all ScriptElement.isPush
  | .error _ => false

/-- The script that whoever holds the key of the given name can spend. -/
def payToKeyHash (keyHash : KeyHash) : Script :=
  ofElements [.op .dup, .op .hash160, .push keyHash.toBytes, .op .equalVerify,
    .op .checkSig]

/-- The script that pays to an address. -/
def payToAddress (addressText : String) : Except Error Script := do
  return payToKeyHash (← Address.ofText addressText).keyHash

/-- The script that presents a signature and a public key. -/
def signatureAndKey (signature publicKey : Bytes) : Script :=
  ofElements [.push signature, .push publicKey]

/-- The pattern of a list of elements. -/
def patternOf : List ScriptElement → ScriptPattern
  | [.op .dup, .op .hash160, .push data, .op .equalVerify, .op .checkSig] =>
      match FixedBytes.ofBytes? 20 data with
      | some keyHash => .payToKeyHash keyHash
      | none => .nonStandard
  | [.push signature, .push publicKey] =>
      if signature ≠ [] ∧ (publicKey.length = 33 ∨ publicKey.length = 65) then
        .signatureAndKey signature publicKey
      else .nonStandard
  | _ => .nonStandard

/-- What a script is recognised as. -/
def pattern (script : Script) : ScriptPattern :=
  if script.toBytes = [] then .empty
  else
    match script.elements with
    | .ok elements => patternOf elements
    | .error _ => .nonStandard

/-- The key hash that a script pays to. -/
def keyHash? (script : Script) : Option KeyHash :=
  match script.pattern with
  | .payToKeyHash keyHash => some keyHash
  | _ => none

/-- The script as a line of words, or its bytes if it does not parse. -/
def text (script : Script) : String :=
  match script.elements with
  | .ok elements => " ".intercalate (elements.map ScriptElement.text)
  | .error _ => "<malformed " ++ Hex.encode script.toBytes ++ ">"

end Script

end CoinSpend
