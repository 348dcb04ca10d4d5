import CoinSpend.Bytes
import Mathlib.Data.List.TakeWhile
import Mathlib.Data.Nat.Digits.Lemmas

/-!
# Positional notation is the usual one

The values of byte strings and the digits of numbers are those of the library,
in one order or the other.  A field of a fixed width holds a number modulo the
size of the field.  Converting digits to another base and back changes nothing,
because leading zeros are kept apart from the number.
-/

namespace CoinSpend

theorem littleEndianValue_lt (bytes : Bytes) :
    littleEndianValue bytes < 256 ^ bytes.length := by
  induction bytes with
  | nil => simp [littleEndianValue]
  | cons byte bytes ih =>
      have byteBound := byte.toNat_lt
      simp only [littleEndianValue, List.length_cons, Nat.pow_succ]
      omega

theorem bigEndianValue_lt (bytes : Bytes) :
    bigEndianValue bytes < 256 ^ bytes.length := by
  simpa [bigEndianValue] using littleEndianValue_lt bytes.reverse

/-- A field holds a number modulo the size of the field. -/
theorem littleEndianValue_littleEndian (width number : Nat) :
    littleEndianValue (littleEndian width number) = number % 256 ^ width := by
  induction width generalizing number with
  | zero => simp [littleEndian, littleEndianValue, Nat.mod_one]
  | succ width ih =>
      simp only [littleEndian, littleEndianValue, ih, UInt8.toNat_ofNat']
      rw [show 256 ^ (width + 1) = 256 * 256 ^ width from Nat.pow_succ',
        Nat.mod_mul]

theorem bigEndianValue_bigEndian (width number : Nat) :
    bigEndianValue (bigEndian width number) = number % 256 ^ width := by
  simp [bigEndianValue, bigEndian, littleEndianValue_littleEndian]

/-- The byte of a number at each place, the least significant one first. -/
theorem littleEndian_eq_map (width number : Nat) :
    littleEndian width number =
      (List.range width).map fun place => UInt8.ofNat (number / 256 ^ place) := by
  induction width generalizing number with
  | zero => rfl
  | succ width ih =>
      have shifted (place : Nat) :
          number / 256 / 256 ^ place = number / 256 ^ (place + 1) := by
        rw [Nat.div_div_eq_div_mul, ← Nat.pow_succ']
      rw [littleEndian, ih, List.range_succ_eq_map, List.map_cons, List.map_map,
        Nat.pow_zero, Nat.div_one]
      simp only [shifted, Function.comp_def]

theorem eq_littleEndian_iff {bytes : Bytes} {width number : Nat}
    (fits : number < 256 ^ width) :
    bytes = littleEndian width number ↔
      bytes.length = width ∧ littleEndianValue bytes = number := by
  constructor
  · rintro rfl
    rw [littleEndianValue_littleEndian, Nat.mod_eq_of_lt fits]
    exact ⟨littleEndian_length width number, rfl⟩
  · rintro ⟨rfl, rfl⟩
    exact (littleEndian_littleEndianValue bytes).symm

/-- A field that is wide enough for a number is known by its width and value. -/
theorem eq_bigEndian_iff {bytes : Bytes} {width number : Nat}
    (fits : number < 256 ^ width) :
    bytes = bigEndian width number ↔
      bytes.length = width ∧ bigEndianValue bytes = number := by
  constructor
  · rintro rfl
    rw [bigEndianValue_bigEndian, Nat.mod_eq_of_lt fits]
    exact ⟨bigEndian_length width number, rfl⟩
  · rintro ⟨rfl, rfl⟩
    exact (bigEndian_bigEndianValue bytes).symm

theorem littleEndianValue_eq_ofDigits (bytes : Bytes) :
    littleEndianValue bytes = Nat.ofDigits 256 (bytes.map UInt8.toNat) := by
  induction bytes with
  | nil => rfl
  | cons byte bytes ih =>
      rw [List.map_cons, Nat.ofDigits_cons, littleEndianValue, ih]

/-- What comes later in a byte string counts for more. -/
theorem littleEndianValue_append (first second : Bytes) :
    littleEndianValue (first ++ second) =
      littleEndianValue first +
        256 ^ first.length * littleEndianValue second := by
  simp only [littleEndianValue_eq_ofDigits, List.map_append,
    Nat.ofDigits_append, List.length_map]

theorem littleEndianValue_eq_zero_iff {bytes : Bytes} :
    littleEndianValue bytes = 0 ↔ ∀ byte ∈ bytes, byte = 0 := by
  induction bytes with
  | nil => simp [littleEndianValue]
  | cons byte bytes ih =>
      rw [List.forall_mem_cons, ← ih, ← UInt8.toNat_inj, UInt8.toNat_zero,
        littleEndianValue]
      omega

theorem bigEndianValue_cons (first : UInt8) (rest : Bytes) :
    bigEndianValue (first :: rest) =
      first.toNat * 256 ^ rest.length + bigEndianValue rest := by
  unfold bigEndianValue
  rw [List.reverse_cons, littleEndianValue_append, List.length_reverse]
  simp only [littleEndianValue]
  ring

theorem littleEndianValue_replicate_zero_append (count : Nat) (bytes : Bytes) :
    littleEndianValue (List.replicate count 0 ++ bytes) =
      256 ^ count * littleEndianValue bytes := by
  induction count with
  | zero => simp
  | succ count ih =>
      rw [List.replicate_succ, List.cons_append, littleEndianValue, ih]
      simp only [UInt8.toNat_zero]
      ring

theorem bigEndianValue_append_replicate_zero (bytes : Bytes) (count : Nat) :
    bigEndianValue (bytes ++ List.replicate count 0) =
      256 ^ count * bigEndianValue bytes := by
  unfold bigEndianValue
  rw [List.reverse_append, List.reverse_replicate,
    littleEndianValue_replicate_zero_append]

namespace Radix

theorem lowDigits_eq_digits {base bound number : Nat} (aboveOne : 1 < base)
    (bounded : number ≤ bound) :
    lowDigits base bound number = Nat.digits base number := by
  induction bound generalizing number with
  | zero =>
      have zero : number = 0 := by omega
      rw [zero, Nat.digits_zero]
      rfl
  | succ bound ih =>
      rw [lowDigits]
      split
      · rename_i zero
        rw [zero, Nat.digits_zero]
      · rename_i nonzero
        have smaller : number / base < number :=
          Nat.div_lt_self (Nat.pos_of_ne_zero nonzero) aboveOne
        rw [ih (by omega), ← Nat.digits_eq_cons_digits_div aboveOne nonzero]

theorem digits_eq_reverse {base : Nat} (aboveOne : 1 < base) (number : Nat) :
    digits base number = (Nat.digits base number).reverse := by
  unfold digits
  rw [lowDigits_eq_digits aboveOne (Nat.le_refl number)]

theorem value_eq_ofDigits (base : Nat) (input : List Nat) :
    value base input = Nat.ofDigits base input.reverse := by
  induction input using List.reverseRecOn with
  | nil => rfl
  | append_singleton front last ih =>
      have step : value base (front ++ [last]) =
          value base front * base + last := by
        simp [value, List.foldl_append]
      rw [step, ih, List.reverse_append, List.reverse_singleton,
        List.singleton_append, Nat.ofDigits_cons, Nat.mul_comm, Nat.add_comm]

theorem value_replicate_zero_append (base count : Nat) (rest : List Nat) :
    value base (List.replicate count 0 ++ rest) = value base rest := by
  simp [value_eq_ofDigits, Nat.ofDigits_append_replicate_zero]

section Conversion

variable {base source target : Nat} {input : List Nat}

theorem eq_zero_of_mem_takeWhile {digit : Nat}
    (digitMem : digit ∈ input.takeWhile (· == 0)) : digit = 0 := by
  have isZero := List.mem_takeWhile_imp (p := (· == 0)) digitMem
  exact beq_iff_eq.mp isZero

theorem takeWhile_zero_eq_replicate (input : List Nat) :
    input.takeWhile (· == 0) =
      List.replicate (input.takeWhile (· == 0)).length 0 :=
  List.eq_replicate_of_mem fun _ => eq_zero_of_mem_takeWhile

theorem value_dropWhile_zero (base : Nat) (input : List Nat) :
    value base (input.dropWhile (· == 0)) = value base input := by
  have split := List.takeWhile_append_dropWhile (p := (· == 0)) (l := input)
  rw [takeWhile_zero_eq_replicate] at split
  conv_rhs => rw [← split, value_replicate_zero_append]

theorem value_digits (aboveOne : 1 < base) (number : Nat) :
    value base (digits base number) = number := by
  rw [value_eq_ofDigits, digits_eq_reverse aboveOne, List.reverse_reverse,
    Nat.ofDigits_digits]

/-- Digits without leading zeros are the digits of their value. -/
theorem digits_value (aboveOne : 1 < base)
    (bounded : ∀ digit ∈ input, digit < base) :
    digits base (value base input) = input.dropWhile (· == 0) := by
  rw [← value_dropWhile_zero, digits_eq_reverse aboveOne, value_eq_ofDigits,
    Nat.digits_ofDigits base aboveOne, List.reverse_reverse]
  · intro digit digitMem
    rw [List.mem_reverse] at digitMem
    exact bounded digit ((List.dropWhile_sublist _).subset digitMem)
  · intro nonempty
    rw [List.getLast_reverse]
    have leading := List.head_dropWhile_not (· == 0)
      (mt List.reverse_eq_nil_iff.mpr nonempty)
    simpa using leading

theorem takeWhile_zero_digits (aboveOne : 1 < base) (number : Nat) :
    (digits base number).takeWhile (· == 0) = [] := by
  rw [digits_eq_reverse aboveOne, List.takeWhile_eq_nil_iff]
  intro nonempty
  have positive : number ≠ 0 := by
    rintro rfl
    simp at nonempty
  have leading := Nat.getLast_digit_ne_zero base positive
  simpa [List.getElem_zero] using leading

theorem lt_of_mem_convert (aboveOne : 1 < target) {digit : Nat}
    (digitMem : digit ∈ convert source target input) : digit < target := by
  rcases List.mem_append.mp digitMem with zero | written
  · have isZero := eq_zero_of_mem_takeWhile zero
    omega
  · rw [digits_eq_reverse aboveOne, List.mem_reverse] at written
    exact Nat.digits_lt_base aboveOne written

theorem takeWhile_zero_convert (aboveOne : 1 < target) (input : List Nat) :
    (convert source target input).takeWhile (· == 0) =
      input.takeWhile (· == 0) := by
  have allZero : ∀ digit ∈ input.takeWhile (· == 0), (digit == 0) = true :=
    fun _ digitMem => beq_iff_eq.mpr (eq_zero_of_mem_takeWhile digitMem)
  unfold convert
  rw [List.takeWhile_append_of_pos allZero, takeWhile_zero_digits aboveOne,
    List.append_nil]

theorem value_convert (aboveOne : 1 < target) (input : List Nat) :
    value target (convert source target input) = value source input := by
  unfold convert
  rw [takeWhile_zero_eq_replicate, value_replicate_zero_append,
    value_digits aboveOne]

/-- Converting gives the digits of the same value, after as many zeros. -/
theorem eq_convert_iff (aboveOne : 1 < target) {output : List Nat} :
    output = convert source target input ↔
      (∀ digit ∈ output, digit < target) ∧
        value target output = value source input ∧
        (output.takeWhile (· == 0)).length =
          (input.takeWhile (· == 0)).length := by
  constructor
  · rintro rfl
    exact ⟨fun _ => lt_of_mem_convert aboveOne, value_convert aboveOne input,
      congrArg List.length (takeWhile_zero_convert aboveOne input)⟩
  · rintro ⟨bounded, sameValue, sameZeros⟩
    have zeros : output.takeWhile (· == 0) = input.takeWhile (· == 0) := by
      rw [takeWhile_zero_eq_replicate output, sameZeros,
        ← takeWhile_zero_eq_replicate input]
    unfold convert
    rw [← zeros, ← sameValue, digits_value aboveOne bounded,
      List.takeWhile_append_dropWhile]

theorem convert_convert (sourceAboveOne : 1 < source)
    (targetAboveOne : 1 < target)
    (bounded : ∀ digit ∈ input, digit < source) :
    convert target source (convert source target input) = input := by
  symm
  rw [eq_convert_iff sourceAboveOne]
  refine ⟨bounded, (value_convert targetAboveOne input).symm, ?_⟩
  rw [takeWhile_zero_convert targetAboveOne]

end Conversion

end Radix

/-- The bytes of a number, most significant first and without leading zeros. -/
def shortestBytes (number : Nat) : Bytes :=
  (Radix.digits 256 number).map UInt8.ofNat

theorem map_toNat_ofNat {numbers : List Nat}
    (bounded : ∀ number ∈ numbers, number < 256) :
    (numbers.map UInt8.ofNat).map UInt8.toNat = numbers := by
  rw [List.map_map]
  conv_rhs => rw [← List.map_id numbers]
  apply List.map_congr_left
  intro number numberMem
  exact UInt8.toNat_ofNat_of_lt (bounded number numberMem)

theorem map_toNat_digits (number : Nat) :
    ((Nat.digits 256 number).map UInt8.ofNat).map UInt8.toNat =
      Nat.digits 256 number :=
  map_toNat_ofNat fun _ => Nat.digits_lt_base (by decide)

theorem bigEndianValue_shortestBytes (number : Nat) :
    bigEndianValue (shortestBytes number) = number := by
  unfold bigEndianValue shortestBytes
  rw [Radix.digits_eq_reverse (by decide), List.map_reverse,
    List.reverse_reverse, littleEndianValue_eq_ofDigits, map_toNat_digits,
    Nat.ofDigits_digits]

theorem length_shortestBytes_le_iff {number width : Nat} :
    (shortestBytes number).length ≤ width ↔ number < 256 ^ width := by
  unfold shortestBytes
  rw [List.length_map, Radix.digits_eq_reverse (by decide), List.length_reverse]
  exact Nat.digits_length_le_iff (by decide) number

theorem shortestBytes_eq_nil_iff {number : Nat} :
    shortestBytes number = [] ↔ number = 0 := by
  unfold shortestBytes
  rw [List.map_eq_nil_iff, Radix.digits_eq_reverse (by decide),
    List.reverse_eq_nil_iff, Nat.digits_eq_nil_iff_eq_zero]

/-- No byte is wasted on a leading zero, which would add nothing to the value. -/
theorem first_shortestBytes_ne_zero {number : Nat} {first : UInt8}
    {rest : Bytes} (shortest : shortestBytes number = first :: rest) :
    first ≠ 0 := by
  rintro rfl
  have value := bigEndianValue_shortestBytes number
  rw [shortest, bigEndianValue_cons] at value
  simp only [UInt8.toNat_zero, zero_mul, zero_add] at value
  have below := bigEndianValue_lt rest
  rw [value] at below
  have shorter := length_shortestBytes_le_iff.mpr below
  rw [shortest, List.length_cons] at shorter
  omega

/-- Bytes without a leading zero are the shortest ones for their value. -/
theorem shortestBytes_bigEndianValue {first : UInt8} (nonzero : first ≠ 0)
    (rest : Bytes) :
    shortestBytes (bigEndianValue (first :: rest)) = first :: rest := by
  have digitsBound : ∀ digit ∈ (first :: rest).reverse.map UInt8.toNat,
      digit < 256 := by
    intro digit digitMem
    obtain ⟨byte, -, rfl⟩ := List.mem_map.mp digitMem
    exact byte.toNat_lt
  have lastNonzero (nonempty : (first :: rest).reverse.map UInt8.toNat ≠ []) :
      ((first :: rest).reverse.map UInt8.toNat).getLast nonempty ≠ 0 := by
    have firstNonzero : first.toNat ≠ 0 := fun zero =>
      nonzero (UInt8.toNat_inj.mp zero)
    simpa using firstNonzero
  unfold shortestBytes bigEndianValue
  rw [littleEndianValue_eq_ofDigits, Radix.digits_eq_reverse (by decide),
    Nat.digits_ofDigits 256 (by decide) _ digitsBound lastNonzero]
  simp [List.map_reverse, Function.comp_def]

end CoinSpend
