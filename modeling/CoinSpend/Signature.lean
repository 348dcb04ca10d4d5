import CoinSpend.Der
import CoinSpend.Error

/-!
# Signatures

A signature is a pair of non-zero scalars, the second not above half the order,
and perhaps the number that tells which public key it recovers to.  Negating the
second scalar gives another signature of the same message, and only the lower of
the two is kept.
-/

namespace CoinSpend

open Secp256k1

-- Recovery numbers are below four; see the instances for the two moduli.
instance recoveryIdBound : @NeZero Nat Zero.ofOfNat0 4 := ⟨by decide⟩

@[ext]
structure Signature where
  r : Scalar
  s : Scalar
  recoveryId : Option (Fin 4)
  r_ne_zero : r ≠ 0
  s_ne_zero : s ≠ 0
  s_low : s.val ≤ halfOrder

instance : DecidableEq Signature := fun _ _ =>
  decidable_of_iff' _ Signature.ext_iff

namespace Signature

theorem val_neg_of_ne_zero {number : Scalar} (nonzero : number ≠ 0) :
    (-number).val = groupOrder - number.val := by
  have positive : 0 < number.val := by
    apply Nat.pos_of_ne_zero
    intro isZero
    exact nonzero (Fin.ext isZero)
  have bound := number.isLt
  show (groupOrder - number.val) % groupOrder = groupOrder - number.val
  exact Nat.mod_eq_of_lt (by omega)

theorem neg_ne_zero {number : Scalar} (nonzero : number ≠ 0) :
    -number ≠ 0 := by
  intro isZero
  have value := val_neg_of_ne_zero nonzero
  rw [isZero] at value
  have bound := number.isLt
  change 0 = _ at value
  omega

theorem neg_low {number : Scalar} (nonzero : number ≠ 0)
    (high : ¬ number.val ≤ halfOrder) : (-number).val ≤ halfOrder := by
  rw [val_neg_of_ne_zero nonzero]
  have odd : groupOrder = 2 * halfOrder + 1 := by decide
  omega

/-- The signature of two scalars with the second one brought into the lower
half.  Negating it swaps the two points that the recovery number tells apart by
their parity. -/
def normalized (r s : Scalar) (recoveryId : Option (Fin 4))
    (r_ne_zero : r ≠ 0) (s_ne_zero : s ≠ 0) : Signature :=
  if low : s.val ≤ halfOrder then
    ⟨r, s, recoveryId, r_ne_zero, s_ne_zero, low⟩
  else
    ⟨r, -s, recoveryId.map (· ^^^ 1), r_ne_zero, neg_ne_zero s_ne_zero,
      neg_low s_ne_zero low⟩

/-- A number as a non-zero scalar. -/
def checkedScalar (part : SignaturePart) (number : Nat) :
    Except Error { scalar : Scalar // scalar ≠ 0 } :=
  if zero : number = 0 then .error (.signaturePartZero part)
  else if small : number < groupOrder then
    .ok ⟨⟨number, small⟩, fun isZero => zero (congrArg Fin.val isZero)⟩
  else .error (.signaturePartTooLarge part)

/-- The signature of two numbers. -/
def ofNumbers (r s : Nat) (recoveryId : Option (Fin 4)) :
    Except Error Signature := do
  let ⟨r, r_ne_zero⟩ ← checkedScalar .r r
  let ⟨s, s_ne_zero⟩ ← checkedScalar .s s
  return normalized r s recoveryId r_ne_zero s_ne_zero

/-- A recovery number, which is below four. -/
def checkedRecoveryId (number : UInt8) : Except Error (Fin 4) :=
  if small : number.toNat < 4 then .ok ⟨number.toNat, small⟩
  else .error (.encoding (.recoveryId number))

/-- The same signature with a recovery number. -/
def withRecoveryId (signature : Signature) (number : UInt8) :
    Except Error Signature := do
  let recoveryId ← checkedRecoveryId number
  return { signature with recoveryId := some recoveryId }

/-- The two scalars as big-endian fields. -/
def toCompact (signature : Signature) : Bytes :=
  bigEndian 32 signature.r.val ++ bigEndian 32 signature.s.val

/-- The signature of two big-endian fields of 32 bytes. -/
def ofCompactFields (bytes : Bytes) (recoveryId : Option (Fin 4)) :
    Except Error Signature :=
  if bytes.length = 64 then
    ofNumbers (bigEndianValue (bytes.take 32)) (bigEndianValue (bytes.drop 32))
      recoveryId
  else .error (.encoding (.compactSignatureLength bytes.length))

def ofCompact (bytes : Bytes) : Except Error Signature :=
  ofCompactFields bytes none

/-- The recovery number is examined before the bytes. -/
def ofCompactRecoverable (bytes : Bytes) (number : UInt8) :
    Except Error Signature := do
  ofCompactFields bytes (some (← checkedRecoveryId number))

/-- The distinguished encoding of the two scalars. -/
def toDer (signature : Signature) : Bytes :=
  Der.encodePair signature.r.val signature.s.val

def ofDer (bytes : Bytes) : Except Error Signature :=
  match Der.decodePair? bytes with
  | none => .error (.encoding .derSignature)
  | some (r, s) => ofNumbers r s none

/-- Whether two signatures consist of the same scalars.  The recovery number
is not part of what is signed. -/
def sameScalars (first second : Signature) : Bool :=
  first.r == second.r && first.s == second.s

end Signature

end CoinSpend
