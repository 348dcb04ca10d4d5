import CoinSpend.Error

/-!
# Hash types

A signature commits to all outputs of its transaction, to none, or to the one at
the index of its input, and either to all inputs or to its own alone.
-/

namespace CoinSpend

/-- Which outputs a signature commits to. -/
inductive OutputScope
  | all
  | none
  | single
  deriving DecidableEq

/-- What a signature commits to. -/
structure HashType where
  outputs : OutputScope
  /-- Whether others may add and change the other inputs. -/
  anyoneCanPay : Bool
  deriving DecidableEq

namespace OutputScope

/-- The number of the scope in a hash type's code. -/
def code : OutputScope → UInt32
  | .all => 1
  | .none => 2
  | .single => 3

def name : OutputScope → String
  | .all => "All"
  | .none => "None"
  | .single => "Single"

end OutputScope

namespace HashType

/-- The hash type that commits to everything. -/
def all : HashType := ⟨.all, false⟩

/-- The bit of the code for others' inputs. -/
def anyoneCanPayBit : UInt32 := 0x80

/-- The code that is hashed with the transaction. -/
def code (type : HashType) : UInt32 :=
  if type.anyoneCanPay then type.outputs.code ||| anyoneCanPayBit
  else type.outputs.code

/-- The byte at the end of a signature. -/
def toByte (type : HashType) : UInt8 :=
  type.code.toUInt8

/-- The six hash types. -/
def types : List HashType :=
  [⟨.all, false⟩, ⟨.none, false⟩, ⟨.single, false⟩,
    ⟨.all, true⟩, ⟨.none, true⟩, ⟨.single, true⟩]

/-- The hash type with a given code. -/
def ofCode (code : UInt32) : Except Error HashType :=
  match types.find? (·.code == code) with
  | some type => .ok type
  | none => .error (.unsupportedHashType code)

/-- The hash type in a byte of a signature. -/
def ofByte (byte : UInt8) : Except Error HashType :=
  ofCode byte.toUInt32

def name (type : HashType) : String :=
  type.outputs.name ++ if type.anyoneCanPay then "AnyoneCanPay" else ""

theorem ofCode_code (type : HashType) : ofCode type.code = .ok type := by
  obtain ⟨outputs, anyoneCanPay⟩ := type
  cases outputs <;> cases anyoneCanPay <;> rfl

theorem ofByte_toByte (type : HashType) : ofByte type.toByte = .ok type := by
  obtain ⟨outputs, anyoneCanPay⟩ := type
  cases outputs <;> cases anyoneCanPay <;> rfl

end HashType

end CoinSpend
