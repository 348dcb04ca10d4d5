import CoinSpend.Bytes

/-!
# The curve secp256k1

Points are affine solutions of `y² = x³ + 7` over the prime field, together with
the point at infinity, and are added by the chord and tangent rules.  Scalars
are numbers modulo the order of the generator.

Combining many copies of one element takes one doubling and at most one further
combination for each binary digit of the count.  Powers in a field and multiples
of a curve point are both computed this way.
-/

namespace CoinSpend

/-- Combine the copies that the low `digits` binary digits of `count` ask
for. -/
def combineDigits {α : Type} (combine : α → α → α) (unit element : α) :
    (digits count : Nat) → α
  | 0, _ => unit
  | digits + 1, count =>
      let half := combineDigits combine unit element digits (count / 2)
      let doubled := combine half half
      if count % 2 = 1 then combine doubled element else doubled

/-- Combine `count` copies of an element. -/
def combineCopies {α : Type} (combine : α → α → α) (unit element : α)
    (count : Nat) : α :=
  combineDigits combine unit element (count.log2 + 1) count

namespace Secp256k1

/-- The prime modulus of the coordinates. -/
def fieldPrime : Nat :=
  0xfffffffffffffffffffffffffffffffffffffffffffffffffffffffefffffc2f

/-- The order of the generator. -/
def groupOrder : Nat :=
  0xfffffffffffffffffffffffffffffffebaaedce6af48a03bbfd25e8cd0364141

-- The zero is spelled out: whatever else is in scope, literals of residues then
-- find these instances and no others.
instance : @NeZero Nat Zero.ofOfNat0 fieldPrime := ⟨by decide⟩

instance : @NeZero Nat Zero.ofOfNat0 groupOrder := ⟨by decide⟩

/-- A coordinate of a point. -/
abbrev Coordinate := Fin fieldPrime

/-- A number that multiplies points. -/
abbrev Scalar := Fin groupOrder

/-- A power of a residue. -/
def power {modulus : Nat} (base : Fin modulus) (exponent : Nat) :
    Fin modulus :=
  combineCopies (· * ·) ⟨1 % modulus, Nat.mod_lt 1 base.pos⟩ base exponent

/-- The inverse of a residue modulo a prime.  The inverse of zero is zero. -/
def inverse {modulus : Nat} (number : Fin modulus) : Fin modulus :=
  power number (modulus - 2)

/-- The coordinates of a point other than infinity. -/
structure AffinePoint where
  x : Coordinate
  y : Coordinate
  deriving DecidableEq

/-- The largest scalar that is not above half the order. -/
def halfOrder : Nat := (groupOrder - 1) / 2

/-- The right-hand side of the curve equation. -/
def cubic (x : Coordinate) : Coordinate :=
  x * x * x + 7

/-- The curve equation. -/
def AffinePoint.OnCurve (point : AffinePoint) : Prop :=
  point.y * point.y = cubic point.x

instance (point : AffinePoint) : Decidable point.OnCurve :=
  inferInstanceAs (Decidable (_ = _))

/-- A point of the curve, or the point at infinity. -/
inductive Point
  | infinity
  | affine (point : AffinePoint)
  deriving DecidableEq

namespace Point

/-- The third point of the line with the given slope through two points,
reflected in the horizontal axis. -/
def alongSlope (slope : Coordinate) (first second : AffinePoint) : Point :=
  let x := slope * slope - first.x - second.x
  .affine ⟨x, slope * (first.x - x) - first.y⟩

/-- Addition by the chord through two points, or by the tangent of one. -/
def add : Point → Point → Point
  | .infinity, second => second
  | first, .infinity => first
  | .affine first, .affine second =>
      if first.x = second.x then
        if first.y + second.y = 0 then .infinity
        else
          alongSlope (3 * first.x * first.x * inverse (2 * first.y))
            first second
      else
        alongSlope
          ((second.y - first.y) * inverse (second.x - first.x)) first second

instance : Add Point := ⟨add⟩

/-- A multiple of a point. -/
def multiple (count : Nat) (point : Point) : Point :=
  combineCopies (· + ·) .infinity point count

end Point

/-- The point that generates the group. -/
def generator : AffinePoint where
  x := 0x79be667ef9dcbbac55a06295ce870b07029bfcdb2dce28d959f2815b16f81798
  y := 0x483ada7726a3c4655da4fbfc0e1108a8fd17b448a68554199c47d08ffb10d4b8

theorem generator_onCurve : generator.OnCurve := by
  decide +kernel

/-- A square root of a residue that has one.  The modulus is three more than a
multiple of four. -/
def squareRoot (number : Coordinate) : Coordinate :=
  power number ((fieldPrime + 1) / 4)

/-- The point of the curve with the given first coordinate whose second
coordinate is odd or even as asked, if there is one. -/
def pointAt? (x : Coordinate) (odd : Bool) : Option AffinePoint :=
  let root := squareRoot (cubic x)
  if root * root = cubic x then
    some ⟨x, if (root.val % 2 == 1) = odd then root else -root⟩
  else none

end Secp256k1

end CoinSpend
