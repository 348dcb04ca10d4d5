import CoinSpend.Transaction

/-!
# The size of a transaction is the length of its wire form

The size is added up from the counts and the lengths of the scripts, without
writing anything.  It agrees with what is written part by part: a count takes as
many bytes as its range says, and a list takes its count and its items.
-/

namespace CoinSpend

theorem length_lengthPrefixed (bytes : Bytes) :
    (lengthPrefixed bytes).length =
      CompactSize.size bytes.length + bytes.length := by
  rw [lengthPrefixed, List.length_append, CompactSize.encode_length]

theorem length_flatMap_toBytes {α : Type} {itemBytes : α → Bytes}
    {itemSize : α → Nat} (sized : ∀ item, (itemBytes item).length = itemSize item)
    (items : List α) :
    (items.flatMap itemBytes).length =
      (items.map itemSize).foldr (· + ·) 0 := by
  induction items with
  | nil => rfl
  | cons item items ih =>
      rw [List.flatMap_cons, List.length_append, sized, ih]
      rfl

theorem length_countPrefixed {α : Type} {itemBytes : α → Bytes}
    {itemSize : α → Nat} (sized : ∀ item, (itemBytes item).length = itemSize item)
    (items : List α) :
    (countPrefixed itemBytes items).length =
      CompactSize.size items.length +
        (items.map itemSize).foldr (· + ·) 0 := by
  rw [countPrefixed, List.length_append, CompactSize.encode_length,
    length_flatMap_toBytes sized]

theorem OutPoint.length_toBytes (place : OutPoint) :
    place.toBytes.length = 32 + 4 := by
  rw [toBytes, List.length_append, FixedBytes.length_toBytes,
    littleEndian_length]

theorem TxInput.length_toBytes (input : TxInput) :
    input.toBytes.length =
      32 + 4 + Transaction.scriptSize input.unlocking + 4 := by
  rw [toBytes, List.length_append, List.length_append, OutPoint.length_toBytes,
    length_lengthPrefixed, littleEndian_length]
  rfl

theorem TxOutput.length_toBytes (output : TxOutput) :
    output.toBytes.length = 8 + Transaction.scriptSize output.locking := by
  rw [toBytes, List.length_append, littleEndian_length, length_lengthPrefixed]
  rfl

/-- The size of a transaction, found without writing it, is the length of its
wire form, however wide its counts are. -/
theorem Transaction.size_eq_length_toBytes (tx : Transaction) :
    tx.size = tx.toBytes.length := by
  have inputsLength :=
    length_countPrefixed TxInput.length_toBytes tx.inputs
  have outputsLength :=
    length_countPrefixed TxOutput.length_toBytes tx.outputs
  rw [toBytes, List.length_append, List.length_append, List.length_append,
    littleEndian_length, littleEndian_length, inputsLength, outputsLength, size]
  omega

end CoinSpend
