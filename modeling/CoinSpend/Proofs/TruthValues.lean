import CoinSpend.Interpreter
import CoinSpend.Proofs.Positional

/-!
# A byte string counts as true if it is not zero

The items of the stack stand for integers in little-endian sign-and-magnitude
form, and this form has a negative zero.  Looking for a byte that is not zero, with
an exception for a sign bit at the end, finds out whether the integer is zero.
-/

namespace CoinSpend

/-- The integer that a byte string denotes in little-endian sign-and-magnitude
form.  The top bit of the last byte is the sign. -/
def signedNumber (bytes : Bytes) : Int :=
  match bytes.getLast? with
  | none => 0
  | some last =>
      let magnitude := littleEndianValue (bytes.dropLast ++ [last &&& 0x7f])
      if last &&& 0x80 = 0 then magnitude else -magnitude

theorem signedNumber_append_singleton (front : Bytes) (last : UInt8) :
    signedNumber (front ++ [last]) =
      if last &&& 0x80 = 0 then
        (littleEndianValue (front ++ [last &&& 0x7f]) : Int)
      else -littleEndianValue (front ++ [last &&& 0x7f]) := by
  simp only [signedNumber, List.getLast?_concat, List.dropLast_concat]

/-- Whether the magnitude bits of a byte are all zero. -/
theorem and_magnitude_eq_zero_iff (byte : UInt8) :
    byte &&& 0x7f = 0 ↔ byte = 0 ∨ byte = 0x80 := by
  have bound := byte.toNat_lt
  have low : (byte &&& 0x7f).toNat = byte.toNat % 128 := by
    rw [UInt8.toNat_and]
    exact Nat.and_two_pow_sub_one_eq_mod byte.toNat 7
  simp only [← UInt8.toNat_inj, low, UInt8.reduceToNat]
  omega

/-- The sign does not matter for being zero. -/
theorem signedNumber_append_eq_zero_iff {front : Bytes} {last : UInt8} :
    signedNumber (front ++ [last]) = 0 ↔
      (∀ byte ∈ front, byte = 0) ∧ (last = 0 ∨ last = 0x80) := by
  have magnitude : littleEndianValue (front ++ [last &&& 0x7f]) = 0 ↔
      (∀ byte ∈ front, byte = 0) ∧ (last = 0 ∨ last = 0x80) := by
    rw [littleEndianValue_eq_zero_iff, List.forall_mem_append,
      List.forall_mem_singleton, and_magnitude_eq_zero_iff]
  rw [← magnitude, signedNumber_append_singleton]
  split <;> omega

theorem truthy_cons_of_ne_nil (byte : UInt8) {rest : Bytes} (more : rest ≠ []) :
    truthy (byte :: rest) = (byte != 0 || truthy rest) := by
  cases rest with
  | nil => contradiction
  | cons next rest => rfl

/-- Only in the last place is a lone sign bit passed over. -/
theorem truthy_append_eq_false_iff {front : Bytes} {last : UInt8} :
    truthy (front ++ [last]) = false ↔
      (∀ byte ∈ front, byte = 0) ∧ (last = 0 ∨ last = 0x80) := by
  induction front with
  | nil =>
      simp only [List.nil_append, truthy, Bool.and_eq_false_iff,
        bne_eq_false_iff_eq, List.not_mem_nil, false_implies, implies_true,
        true_and]
  | cons byte front ih =>
      have more : front ++ [last] ≠ [] := by simp
      rw [List.cons_append, truthy_cons_of_ne_nil byte more, Bool.or_eq_false_iff,
        ih, List.forall_mem_cons, and_assoc, bne_eq_false_iff_eq]

theorem append_eq_zeros_iff {front : Bytes} {last : UInt8} :
    (∃ count, front ++ [last] = List.replicate count 0 ∨
        front ++ [last] = List.replicate count 0 ++ [0x80]) ↔
      (∀ byte ∈ front, byte = 0) ∧ (last = 0 ∨ last = 0x80) := by
  constructor
  · rintro ⟨count, zeros | marked⟩
    · have allZero : ∀ byte ∈ front ++ [last], byte = 0 :=
        (List.eq_replicate_iff.mp zeros).2
      rw [List.forall_mem_append, List.forall_mem_singleton] at allZero
      exact ⟨allZero.1, .inl allZero.2⟩
    · obtain ⟨rfl, lastEq⟩ := List.append_inj' marked rfl
      exact ⟨fun byte member => List.eq_of_mem_replicate member,
        .inr (List.singleton_inj.mp lastEq)⟩
  · rintro ⟨zeros, lastCases⟩
    have frontEq : front = List.replicate front.length 0 :=
      List.eq_replicate_of_mem zeros
    rcases lastCases with rfl | rfl
    · refine ⟨front.length + 1, .inl ?_⟩
      rw [List.replicate_succ', ← frontEq]
    · refine ⟨front.length, .inr ?_⟩
      rw [← frontEq]

/-- A byte string counts as true exactly if the integer that it denotes is not
zero.  What counts as false is a string of zeros whose last byte may be a lone sign
bit. -/
theorem truthy_iff_signedNumber_ne_zero (bytes : Bytes) :
    (truthy bytes = true ↔ signedNumber bytes ≠ 0) ∧
      (truthy bytes = false ↔
        ∃ count, bytes = List.replicate count 0 ∨
          bytes = List.replicate count 0 ++ [0x80]) := by
  have falseIff :
      (truthy bytes = false ↔ signedNumber bytes = 0) ∧
        (truthy bytes = false ↔
          ∃ count, bytes = List.replicate count 0 ∨
            bytes = List.replicate count 0 ++ [0x80]) := by
    rcases List.eq_nil_or_concat' bytes with rfl | ⟨front, last, rfl⟩
    · exact ⟨iff_of_true rfl rfl, iff_of_true rfl ⟨0, .inl rfl⟩⟩
    · rw [truthy_append_eq_false_iff, signedNumber_append_eq_zero_iff,
        append_eq_zeros_iff]
      exact ⟨Iff.rfl, Iff.rfl⟩
  refine ⟨?_, falseIff.2⟩
  rw [← Bool.not_eq_false, falseIff.1]

example : truthy [0, 0x80] = false ∧ truthy [0x80, 0] = true ∧
    signedNumber [0x80, 0x80] = -128 := by
  decide

end CoinSpend
