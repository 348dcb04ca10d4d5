import CoinSpend.Base58
import CoinSpend.Base64
import CoinSpend.Hex
import CoinSpend.Network
import CoinSpend.ScriptElement

/-!
# What can go wrong

Every failure is a cause with the values that explain it.  The wording of all
causes is in one place, and each failure is either malformed input or a
cryptographic one.
-/

namespace CoinSpend

/-- Why a secret is no private key. -/
inductive SecretFault
  | length (count : Nat)
  | range
  deriving DecidableEq

def SecretFault.message : SecretFault → String
  | .length count => "expected 32 bytes, got " ++ toString count
  | .range => "zero or not below the curve order"

/-- Why a text or byte string is not the encoding of a value. -/
inductive EncodingFault
  | hex (fault : Hex.Fault)
  | base64 (fault : Base64.Fault)
  | secretVersion (version : UInt8)
  | secretCompressionFlag (flag : UInt8)
  | secretLength (count : Nat)
  | secretNetwork (found expected : Network)
  | publicKeyLength (count : Nat)
  | publicKeyForm (form : UInt8)
  | addressVersion (version : UInt8)
  | addressLength (count : Nat)
  | compactSignatureLength (count : Nat)
  | recoveryId (number : UInt8)
  | derSignature
  | messageSignatureLength (count : Nat)
  | messageSignatureHeader (header : UInt8)
  | digestLength (count : Nat)
  | emptySignature
  deriving DecidableEq

def EncodingFault.message : EncodingFault → String
  | .hex fault => "hex: " ++ fault.message
  | .base64 fault => "base64: " ++ fault.message
  | .secretVersion version =>
      "unknown WIF version 0x" ++ hexNumber version.toNat
  | .secretCompressionFlag flag =>
      "invalid WIF compression flag 0x" ++ hexNumber flag.toNat
  | .secretLength count => "invalid WIF payload length: " ++ toString count
  | .secretNetwork found expected =>
      "WIF key is for " ++ found.name ++ ", expected " ++ expected.name
  | .publicKeyLength count =>
      "public key must be 33 or 65 bytes, got " ++ toString count
  | .publicKeyForm form =>
      "invalid public key prefix 0x" ++ hexNumber form.toNat
  | .addressVersion version =>
      "unknown address version 0x" ++ hexNumber version.toNat
  | .addressLength count =>
      "address payload must be 20 bytes, got " ++ toString count
  | .compactSignatureLength count =>
      "compact signature must be 64 bytes, got " ++ toString count
  | .recoveryId number =>
      "recovery id " ++ toString number.toNat ++ " not in 0..=3"
  | .derSignature => "DER signature: malformed signature"
  | .messageSignatureLength count =>
      "message signature must be 65 bytes, got " ++ toString count
  | .messageSignatureHeader header =>
      "invalid message signature header " ++ toString header.toNat
  | .digestLength count => "hash must be 32 bytes, got " ++ toString count
  | .emptySignature => "empty signature"

/-- Why a script cannot be parsed, executed or used. -/
inductive ScriptFault
  | pushPastEnd (length : Nat)
  | scriptSize (size : Nat)
  | pushSize (size : Nat)
  | stackOverflow
  | unsupportedOpcode (byte : UInt8)
  | unlockingNotPushOnly
  | notSignatureAndKey (found : ScriptPattern)
  deriving DecidableEq

/-- A pattern as shown in a message: a key hash is listed in decimal. -/
def ScriptPattern.describe : ScriptPattern → String
  | .empty => "Empty"
  | .payToKeyHash keyHash =>
      "PayToPubkeyHash([" ++
        ", ".intercalate
          (keyHash.toBytes.map fun byte => toString byte.toNat) ++ "])"
  | .signatureAndKey _ _ => "SignatureAndPubkey"
  | .nonStandard => "NonStandard"

def ScriptFault.message : ScriptFault → String
  | .pushPastEnd length =>
      "push of " ++ toString length ++ " bytes runs past end of script"
  | .scriptSize size =>
      "script of " ++ toString size ++ " bytes exceeds " ++
        toString Script.maxSize
  | .pushSize size =>
      "push of " ++ toString size ++ " bytes exceeds " ++
        toString Script.maxPushSize
  | .stackOverflow => "stack overflow"
  | .unsupportedOpcode byte => "unsupported opcode 0x" ++ hexNumber byte.toNat
  | .unlockingNotPushOnly => "unlocking script must contain only pushes"
  | .notSignatureAndKey found =>
      "expected <signature> <public key>, found " ++ found.describe

/-- One of the two numbers of a signature. -/
inductive SignaturePart
  | r
  | s
  deriving DecidableEq

def SignaturePart.name : SignaturePart → String
  | .r => "r"
  | .s => "s"

/-- Why no public key can be recovered from a signature. -/
inductive RecoveryFault
  | noRecoveryId
  | noPoint
  deriving DecidableEq

def RecoveryFault.message : RecoveryFault → String
  | .noRecoveryId => "signature carries no recovery indicator"
  | .noPoint => "malformed signature"

/-- A failure of an operation of the library. -/
inductive Error
  | base58 (fault : Base58.Fault)
  | checksumMismatch
  | truncated (needed remaining : Nat)
  | nonMinimalCompactSize (number : Nat)
  | secret (fault : SecretFault)
  | encoding (fault : EncodingFault)
  | script (fault : ScriptFault)
  | inputIndexOutOfRange (index count : Nat)
  | duplicateInput (index : Nat)
  | unsupportedHashType (code : UInt32)
  | trailingData (count : Nat)
  | pointNotOnCurve
  | signaturePartZero (part : SignaturePart)
  | signaturePartTooLarge (part : SignaturePart)
  | verificationFailed
  | recoveryFailed (fault : RecoveryFault)
  deriving DecidableEq

/-- The two kinds of failure. -/
inductive ErrorKind
  | malformedInput
  | cryptographic
  deriving DecidableEq

namespace Error

def kind : Error → ErrorKind
  | .pointNotOnCurve => .cryptographic
  | .signaturePartZero _ => .cryptographic
  | .signaturePartTooLarge _ => .cryptographic
  | .verificationFailed => .cryptographic
  | .recoveryFailed _ => .cryptographic
  | _ => .malformedInput

def message : Error → String
  | .base58 fault => "Invalid base58 encoding: " ++ fault.message
  | .checksumMismatch => "Checksum mismatch"
  | .truncated needed remaining =>
      "Unexpected end of data: needed " ++ toString needed ++ " bytes, " ++
        toString remaining ++ " remaining"
  | .nonMinimalCompactSize number =>
      "Invalid compact size: non-canonical encoding of " ++ toString number
  | .secret fault => "Invalid scalar: " ++ fault.message
  | .encoding fault => "Invalid encoding: " ++ fault.message
  | .script fault => "Unexpected script shape: " ++ fault.message
  | .inputIndexOutOfRange index count =>
      "Input index " ++ toString index ++
        " out of range for transaction with " ++ toString count ++ " inputs"
  | .duplicateInput index =>
      "Input " ++ toString index ++
        " appears more than once in a signing batch"
  | .unsupportedHashType code =>
      "Unsupported sighash type: 0x" ++ hexNumber code.toNat
  | .trailingData count =>
      toString count ++ " trailing bytes after transaction"
  | .pointNotOnCurve => "Point is not on the curve"
  | .signaturePartZero part =>
      "Signature value out of range: " ++ part.name ++ " is zero"
  | .signaturePartTooLarge part =>
      "Signature value out of range: " ++ part.name ++
        " is not below the curve order"
  | .verificationFailed => "Signature verification failed"
  | .recoveryFailed fault =>
      "Public key recovery failed: " ++ fault.message

/-- Computations in a row succeed if each of them does. -/
theorem bind_eq_ok_iff {ε α β : Type} {first : Except ε α}
    {next : α → Except ε β} {result : β} :
    first >>= next = .ok result ↔
      ∃ value, first = .ok value ∧ next value = .ok result := by
  cases first with
  | error error => simp [bind, Except.bind]
  | ok value => simp [bind, Except.bind]

theorem mapError_eq_ok_iff {ε α : Type} {first : Except ε α}
    {cause : ε → Error} {result : α} :
    first.mapError cause = .ok result ↔ first = .ok result := by
  cases first with
  | error fault =>
      change Except.error (cause fault) = .ok result ↔ _
      simp
  | ok value =>
      change Except.ok value = .ok result ↔ _
      simp

/-- What follows a check is computed only if the check finds no fault. -/
theorem check_eq_ok_iff {ε α : Type} {fault : Prop} [Decidable fault] {error : ε}
    {next : Unit → Except ε α} {result : α} :
    (if fault then throw error >>= next else next ()) = .ok result ↔
      ¬ fault ∧ next () = .ok result := by
  by_cases found : fault <;>
    simp [found, bind, Except.bind, throw, throwThe, MonadExceptOf.throw]

theorem bind_eq_error_iff {ε α β : Type} {first : Except ε α}
    {next : α → Except ε β} {error : ε} :
    first >>= next = .error error ↔
      first = .error error ∨
        ∃ value, first = .ok value ∧ next value = .error error := by
  cases first with
  | error error => simp [bind, Except.bind]
  | ok value => simp [bind, Except.bind]

theorem throw_eq_error_iff {ε α : Type} {found error : ε} :
    (throw found : Except ε α) = .error error ↔ found = error := by
  simp [throw, throwThe, MonadExceptOf.throw]

theorem pure_ne_error {ε α : Type} (value : α) (error : ε) :
    (pure value : Except ε α) ≠ .error error := by
  simp [pure, Except.pure]

theorem mapError_eq_error_iff {ε α : Type} {first : Except ε α}
    {cause : ε → Error} {error : Error} :
    first.mapError cause = .error error ↔
      ∃ fault, first = .error fault ∧ cause fault = error := by
  cases first with
  | error fault =>
      change Except.error (cause fault) = .error error ↔ _
      simp
  | ok value =>
      change Except.ok value = .error error ↔ _
      simp

theorem check_eq_error_iff {ε α : Type} {fault : Prop} [Decidable fault]
    {found error : ε} {next : Unit → Except ε α} :
    (if fault then throw found >>= next else next ()) = .error error ↔
      fault ∧ found = error ∨ ¬ fault ∧ next () = .error error := by
  by_cases faulty : fault <;>
    simp [faulty, bind, Except.bind, throw, throwThe, MonadExceptOf.throw]

end Error

end CoinSpend
