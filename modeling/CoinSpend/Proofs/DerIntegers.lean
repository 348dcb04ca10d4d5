import CoinSpend.Der
import CoinSpend.Proofs.Positional
import Mathlib.Tactic.Linarith

/-!
# Integers have one shortest content

The content of an integer is read as two's complement, and its length bounds the
number.  A comparison of the first two bytes finds out whether a shorter content
would do, so that a number has one content.  For numbers that are not negative it
is the one that is written.
-/

namespace CoinSpend

namespace Der

/-- The three shapes of an integer's content. -/
theorem integerContent_cases (number : Nat) :
    number = 0 ∧ integerContent number = [0] ∨
      ∃ first rest, shortestBytes number = first :: rest ∧ first ≠ 0 ∧
        (first < 0x80 ∧ integerContent number = first :: rest ∨
          0x80 ≤ first ∧ integerContent number = 0 :: first :: rest) := by
  cases shortest : shortestBytes number with
  | nil =>
      have zero := shortestBytes_eq_nil_iff.mp shortest
      exact .inl ⟨zero, by rw [zero]; rfl⟩
  | cons first rest =>
      refine .inr ⟨first, rest, rfl, first_shortestBytes_ne_zero shortest, ?_⟩
      unfold shortestBytes at shortest
      unfold integerContent
      rw [shortest]
      by_cases high : 128 ≤ first
      · exact .inr ⟨high, if_pos high⟩
      · exact .inl ⟨UInt8.not_le.mp high, if_neg high⟩

theorem bigEndianValue_integerContent (number : Nat) :
    bigEndianValue (integerContent number) = number := by
  have value := bigEndianValue_shortestBytes number
  rcases integerContent_cases number with ⟨zero, content⟩ |
    ⟨first, rest, shortest, -, ⟨-, content⟩ | ⟨-, content⟩⟩
  · rw [content, zero]
    rfl
  · rw [content, ← shortest, value]
  · rw [content, bigEndianValue_cons, ← shortest, value]
    simp

theorem minimalContent_integerContent (number : Nat) :
    minimalContent (integerContent number) = true := by
  rcases integerContent_cases number with ⟨-, content⟩ |
    ⟨first, rest, -, nonzero, ⟨low, content⟩ | ⟨high, content⟩⟩
  · rw [content]
    rfl
  · rw [content]
    cases rest with
    | nil => rfl
    | cons second rest =>
        have notAll : first ≠ 0xff := by
          rintro rfl
          exact absurd low (by decide)
        simp [minimalContent, nonzero, notAll]
  · rw [content]
    simp [minimalContent, UInt8.not_lt.mpr high]

theorem headD_integerContent_lt (number : Nat) :
    (integerContent number).headD 0 < 0x80 := by
  rcases integerContent_cases number with ⟨-, content⟩ |
    ⟨first, rest, -, -, ⟨low, content⟩ | ⟨-, content⟩⟩
  · rw [content]
    decide
  · rw [content]
    exact low
  · rw [content, List.headD_cons]
    decide

/-- A number below half of what a field reaches leaves the first bit of the
field to the sign. -/
theorem length_integerContent_le {number width : Nat}
    (bound : 2 * number < 256 ^ width) (positive : 0 < width) :
    (integerContent number).length ≤ width := by
  rcases integerContent_cases number with ⟨-, content⟩ |
    ⟨first, rest, shortest, -, ⟨-, content⟩ | ⟨high, content⟩⟩
  · rw [content]
    exact positive
  · rw [content, ← shortest, length_shortestBytes_le_iff]
    omega
  · rw [content, List.length_cons]
    have value := bigEndianValue_shortestBytes number
    rw [shortest, bigEndianValue_cons] at value
    have highValue : 128 ≤ first.toNat := high
    have larger : 256 ^ (rest.length + 1) < 256 ^ width := by
      calc 256 ^ (rest.length + 1)
          = 2 * (128 * 256 ^ rest.length) := by rw [Nat.pow_succ]; omega
        _ ≤ 2 * (first.toNat * 256 ^ rest.length) :=
            Nat.mul_le_mul_left 2 (Nat.mul_le_mul_right _ highValue)
        _ ≤ 2 * number := by omega
        _ < 256 ^ width := bound
    exact (Nat.pow_lt_pow_iff_right (by decide)).mp larger

/-- A content that is minimal and not negative is the one of its value. -/
theorem integerContent_of_minimal {content : Bytes}
    (minimal : minimalContent content = true)
    (low : content.headD 0 < 0x80) :
    integerContent (bigEndianValue content) = content := by
  rcases content with _ | ⟨first, rest⟩
  · contradiction
  by_cases zero : first = 0
  · subst zero
    rcases rest with _ | ⟨second, rest⟩
    · rfl
    have high : 0x80 ≤ second := by
      by_contra small
      simp [minimalContent, UInt8.not_le.mp small] at minimal
    have nonzero : second ≠ 0 := by
      rintro rfl
      exact absurd high (by decide)
    have shortest := shortestBytes_bigEndianValue nonzero rest
    have value : bigEndianValue (0 :: second :: rest) =
        bigEndianValue (second :: rest) := by
      rw [bigEndianValue_cons]
      simp
    unfold shortestBytes at shortest
    unfold integerContent
    rw [value, shortest]
    exact if_pos high
  · have shortest := shortestBytes_bigEndianValue zero rest
    unfold shortestBytes at shortest
    unfold integerContent
    rw [shortest]
    exact if_neg (UInt8.not_le.mpr low)

/-- The number that an integer's content stands for: the first bit counts
negatively. -/
def signedValue (content : Bytes) : Int :=
  if 0x80 ≤ content.headD 0 then
    bigEndianValue content - 256 ^ content.length
  else bigEndianValue content

/-- Whether a number has a two's complement of the given width. -/
def FitsIn (width : Nat) (number : Int) : Prop :=
  -256 ^ width ≤ 2 * number ∧ 2 * number < 256 ^ width

theorem FitsIn.mono {width wider : Nat} (le : width ≤ wider) {number : Int}
    (fits : FitsIn width number) : FitsIn wider number := by
  have larger : (256 : Int) ^ width ≤ 256 ^ wider :=
    pow_le_pow_right₀ (by decide) le
  obtain ⟨lower, upper⟩ := fits
  exact ⟨by omega, by omega⟩

theorem bigEndianValue_cons_cast (first : UInt8) (rest : Bytes) :
    (bigEndianValue (first :: rest) : Int) =
      first.toNat * 256 ^ rest.length + bigEndianValue rest := by
  rw [bigEndianValue_cons]
  push_cast
  rfl

theorem bigEndianValue_lt_cast (bytes : Bytes) :
    (bigEndianValue bytes : Int) < 256 ^ bytes.length := by
  exact_mod_cast bigEndianValue_lt bytes

theorem signedValue_cons_of_low {first : UInt8} (low : first < 0x80)
    (rest : Bytes) :
    signedValue (first :: rest) =
      first.toNat * 256 ^ rest.length + bigEndianValue rest := by
  rw [signedValue, List.headD_cons, if_neg (UInt8.not_le.mpr low),
    bigEndianValue_cons_cast]

theorem signedValue_cons_of_high {first : UInt8} (high : 0x80 ≤ first)
    (rest : Bytes) :
    signedValue (first :: rest) =
      (first.toNat - 256) * 256 ^ rest.length + bigEndianValue rest := by
  rw [signedValue, List.headD_cons, if_pos high, bigEndianValue_cons_cast,
    List.length_cons, pow_succ]
  ring

theorem fitsIn_signedValue (content : Bytes) :
    FitsIn content.length (signedValue content) := by
  cases content with
  | nil => exact ⟨by decide, by decide⟩
  | cons first rest =>
      have below := bigEndianValue_lt_cast rest
      have byteBound := first.toNat_lt
      have scale : (256 : Int) ^ (rest.length + 1) = 256 * 256 ^ rest.length :=
        pow_succ' 256 rest.length
      have positive : (0 : Int) < 256 ^ rest.length := by positivity
      unfold FitsIn
      rw [List.length_cons, scale]
      by_cases high : 0x80 ≤ first
      · have highValue : 0x80 ≤ first.toNat := high
        rw [signedValue_cons_of_high high]
        constructor <;> nlinarith
      · have lowValue : first.toNat < 0x80 := UInt8.not_le.mp high
        rw [signedValue_cons_of_low (UInt8.not_le.mp high)]
        constructor <;> nlinarith

theorem minimalContent_cons_cons_iff {first second : UInt8} {rest : Bytes} :
    minimalContent (first :: second :: rest) = true ↔
      ¬ (first = 0x00 ∧ second < 0x80) ∧ ¬ (first = 0xff ∧ 0x80 ≤ second) := by
  simp [minimalContent, imp_iff_not_or]

/-- A content that is minimal needs all of its bytes. -/
theorem not_fitsIn_of_minimal {first second : UInt8} {rest : Bytes}
    (minimal : minimalContent (first :: second :: rest) = true) :
    ¬ FitsIn (second :: rest).length
      (signedValue (first :: second :: rest)) := by
  obtain ⟨notZero, notAll⟩ := minimalContent_cons_cons_iff.mp minimal
  rintro ⟨lower, upper⟩
  have below := bigEndianValue_lt_cast rest
  have nonnegative : (0 : Int) ≤ bigEndianValue rest := Int.natCast_nonneg _
  have scale : (256 : Int) ^ (rest.length + 1) = 256 * 256 ^ rest.length :=
    pow_succ' 256 rest.length
  have positive : (0 : Int) < 256 ^ rest.length := by positivity
  have firstBound := first.toNat_lt
  have secondBound := second.toNat_lt
  rw [List.length_cons, scale] at lower upper
  by_cases high : 0x80 ≤ first
  · have highValue : 0x80 ≤ first.toNat := high
    rw [signedValue_cons_of_high high, bigEndianValue_cons_cast,
      List.length_cons, scale] at lower
    by_cases all : first = 0xff
    · have low : second.toNat < 0x80 :=
        UInt8.not_le.mp fun high => notAll ⟨all, high⟩
      subst all
      simp only [UInt8.reduceToNat, Nat.cast_ofNat] at lower
      nlinarith
    · have notLast : first.toNat ≠ 0xff := fun same =>
        all (UInt8.toNat_inj.mp same)
      have : (first.toNat : Int) ≤ 254 := by omega
      nlinarith
  · have low : first < 0x80 := UInt8.not_le.mp high
    rw [signedValue_cons_of_low low, bigEndianValue_cons_cast,
      List.length_cons, scale] at upper
    by_cases zero : first = 0
    · have high : 0x80 ≤ second.toNat :=
        UInt8.not_lt.mp fun low => notZero ⟨zero, low⟩
      subst zero
      simp only [UInt8.toNat_zero] at upper
      nlinarith
    · have notZero : first.toNat ≠ 0 := fun same =>
        zero (UInt8.toNat_inj.mp same)
      have : 1 ≤ (first.toNat : Int) := by omega
      nlinarith

theorem signedValue_tail_of_not_minimal {first second : UInt8} {rest : Bytes}
    (superfluous : minimalContent (first :: second :: rest) ≠ true) :
    signedValue (second :: rest) = signedValue (first :: second :: rest) := by
  rw [ne_eq, minimalContent_cons_cons_iff, ← not_or, not_not] at superfluous
  rcases superfluous with ⟨rfl, low⟩ | ⟨rfl, high⟩
  · rw [signedValue_cons_of_low low,
      signedValue_cons_of_low (show (0 : UInt8) < 0x80 by decide),
      bigEndianValue_cons_cast]
    simp
  · rw [signedValue_cons_of_high high,
      signedValue_cons_of_high (show (0x80 : UInt8) ≤ 0xff by decide),
      bigEndianValue_cons_cast, List.length_cons, pow_succ]
    simp only [UInt8.reduceToNat]
    push_cast
    ring

/-- A content of a number than which none is shorter. -/
structure IsContent (number : Int) (content : Bytes) : Prop where
  nonempty : content ≠ []
  value_eq : signedValue content = number
  shortest : ∀ other, other ≠ [] → signedValue other = number →
    content.length ≤ other.length

/-- Comparing the first two bytes finds out whether there is a shorter
content. -/
theorem isContent_iff {number : Int} {content : Bytes} :
    IsContent number content ↔
      minimalContent content = true ∧ signedValue content = number := by
  constructor
  · rintro ⟨nonempty, rfl, shortest⟩
    refine ⟨?_, rfl⟩
    rcases content with _ | ⟨first, _ | ⟨second, rest⟩⟩
    · contradiction
    · rfl
    · by_contra superfluous
      have shorter := shortest (second :: rest) (List.cons_ne_nil _ _)
        (signedValue_tail_of_not_minimal superfluous)
      simp at shorter
  · rintro ⟨minimal, rfl⟩
    have nonempty : content ≠ [] := by
      rintro rfl
      contradiction
    refine ⟨nonempty, rfl, fun other otherNonempty same => ?_⟩
    rcases content with _ | ⟨first, _ | ⟨second, rest⟩⟩
    · contradiction
    · exact List.length_pos_iff.mpr otherNonempty
    · by_contra shorter
      apply not_fitsIn_of_minimal minimal
      rw [← same]
      exact (fitsIn_signedValue other).mono
        (Nat.lt_succ_iff.mp (Nat.not_le.mp shorter))

theorem isContent_natCast_iff {number : Nat} {content : Bytes} :
    IsContent number content ↔ content = integerContent number := by
  rw [isContent_iff]
  constructor
  · rintro ⟨minimal, value⟩
    have low : content.headD 0 < 0x80 := by
      by_contra high
      have below := bigEndianValue_lt_cast content
      rw [signedValue, if_pos (UInt8.not_lt.mp high)] at value
      omega
    rw [signedValue, if_neg (UInt8.not_le.mpr low), Nat.cast_inj] at value
    rw [← value, integerContent_of_minimal minimal low]
  · rintro rfl
    refine ⟨minimalContent_integerContent number, ?_⟩
    rw [signedValue,
      if_neg (UInt8.not_le.mpr (headD_integerContent_lt number)),
      bigEndianValue_integerContent]

end Der

end CoinSpend
