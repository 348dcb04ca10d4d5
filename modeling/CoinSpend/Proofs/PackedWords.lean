import CoinSpend.BlockHash
import CoinSpend.Cursor
import CoinSpend.Proofs.Positional

/-!
# Words packed in either byte order

A word of a fixed width is written in one of two byte orders.  Unpacking takes the
bytes that it needs from the front of a byte string, whatever follows them, and
gives the number whose packed form they are.
-/

namespace CoinSpend

namespace BlockHash.WordOrder

/-- The number in the first `width` bytes of a byte string, in the given order. -/
def unpack : WordOrder → (width : Nat) → Bytes → Except Error Nat
  | .bigEndian => unpackBigEndian
  | .littleEndian => unpackLittleEndian

variable {order : WordOrder} {width number : Nat} {bytes : Bytes}

theorem value_lt (order : WordOrder) (bytes : Bytes) :
    order.value bytes < 256 ^ bytes.length := by
  cases order with
  | bigEndian => exact bigEndianValue_lt bytes
  | littleEndian => exact littleEndianValue_lt bytes

theorem eq_field_iff (fits : number < 256 ^ width) :
    bytes = order.field width number ↔
      bytes.length = width ∧ order.value bytes = number := by
  cases order with
  | bigEndian => exact eq_bigEndian_iff fits
  | littleEndian => exact eq_littleEndian_iff fits

/-- A field of the right width is written for its own value and for no other
number that fits. -/
theorem value_eq_iff (wide : bytes.length = width) :
    order.value bytes = number ↔
      number < 256 ^ width ∧ bytes = order.field width number := by
  constructor
  · rintro rfl
    have fits : order.value bytes < 256 ^ width := wide ▸ order.value_lt bytes
    exact ⟨fits, (eq_field_iff fits).mpr ⟨wide, rfl⟩⟩
  · rintro ⟨fits, written⟩
    exact ((eq_field_iff fits).mp written).2

theorem unpack_eq (order : WordOrder) (width : Nat) (bytes : Bytes) :
    order.unpack width bytes =
      if width ≤ bytes.length then .ok (order.value (bytes.take width))
      else .error (.truncated width bytes.length) := by
  have reads {α : Type} (value : Bytes → α) :
      (do return value (← readBytes width) : Reading α).runOn bytes =
        if width ≤ bytes.length then .ok (value (bytes.take width))
        else .error (.truncated width bytes.length) := by
    rw [Reading.runOn, Reading.runFrom_bind, runFrom_readBytes]
    by_cases enough : width ≤ bytes.length <;> simp [Cursor.start, enough]
  cases order with
  | bigEndian => exact reads bigEndianValue
  | littleEndian => exact reads littleEndianValue

/-- A number is unpacked exactly from the byte strings that begin with its packed
form, and only a byte string that is too short is refused.  The packed form holds
the byte of each place in turn, from one end or from the other. -/
theorem unpack_inverts_field (order : WordOrder) (width : Nat)
    (bytes : Bytes) :
    (∀ number, order.unpack width bytes = .ok number ↔
        number < 256 ^ width ∧ width ≤ bytes.length ∧
          bytes.take width = order.field width number) ∧
      (∀ error, order.unpack width bytes = .error error ↔
        bytes.length < width ∧ error = .truncated width bytes.length) ∧
      ∀ number,
        WordOrder.littleEndian.field width number =
            (List.range width).map
              (fun place => UInt8.ofNat (number / 256 ^ place)) ∧
          WordOrder.bigEndian.field width number =
            (WordOrder.littleEndian.field width number).reverse := by
  rw [unpack_eq]
  refine ⟨fun number => ?_, fun error => ?_,
    fun number => ⟨littleEndian_eq_map width number, rfl⟩⟩
  · by_cases enough : width ≤ bytes.length
    · have wide : (bytes.take width).length = width := by
        rw [List.length_take, Nat.min_eq_left enough]
      rw [if_pos enough, Except.ok.injEq, value_eq_iff wide]
      simp only [enough, true_and]
    · rw [if_neg enough]
      simp only [enough, reduceCtorEq, false_and, and_false]
  · by_cases enough : width ≤ bytes.length
    · rw [if_pos enough]
      simp only [Nat.not_lt.mpr enough, reduceCtorEq, false_and]
    · rw [if_neg enough, Except.error.injEq]
      simp only [Nat.not_le.mp enough, true_and, eq_comm]

example :
    WordOrder.littleEndian.unpack 4 [0x28, 0x23, 0, 0, 0xff] = .ok 9000 ∧
      WordOrder.bigEndian.unpack 4 [0, 0, 0x23, 0x28, 0xff] = .ok 9000 := by
  decide

end BlockHash.WordOrder

end CoinSpend
