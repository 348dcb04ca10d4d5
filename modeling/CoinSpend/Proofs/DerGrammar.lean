import CoinSpend.Proofs.DerIntegers
import Mathlib.Data.Option.Basic

/-!
# The distinguished encoding has one form for everything

A length, an integer and a sequence of two integers are read from the bytes that
the grammar gives them, and from nothing else.  The grammar is stated for all
lengths that can be written, although those of scalars all fit into one byte.
-/

namespace CoinSpend

namespace Der

/-- The bytes of a length: below 128 the length itself, and else the number of
its bytes and these. -/
def lengthBytes (length : Nat) : Bytes :=
  if length < 0x80 then [UInt8.ofNat length]
  else
    let field := shortestBytes length
    UInt8.ofNat (0x80 + field.length) :: field

/-- What the lengths that can be written are below.  The first byte announces
126 bytes at most, because `ff` is reserved. -/
def lengthBound : Nat := 256 ^ 126

/-- The bytes of an integer with a given content. -/
def integerBytes (content : Bytes) : Bytes :=
  0x02 :: (lengthBytes content.length ++ content)

/-- The bytes of a sequence of two integers with given contents. -/
def sequenceBytes (first second : Bytes) : Bytes :=
  let body := integerBytes first ++ integerBytes second
  0x30 :: (lengthBytes body.length ++ body)

theorem lt_lengthBound_of_short {length : Nat} (short : length < 0x80) :
    length < lengthBound :=
  Nat.lt_trans short (by decide)

theorem readLength?_short {length : Nat} (short : length < 0x80)
    (rest : Bytes) :
    readLength? (UInt8.ofNat length :: rest) = some (length, rest) := by
  have value : (UInt8.ofNat length).toNat = length :=
    UInt8.toNat_ofNat_of_lt (by change length < 256; omega)
  have low : UInt8.ofNat length < 0x80 := by
    rw [UInt8.lt_iff_toNat_lt, value]
    exact short
  rw [readLength?, if_pos low, value]

theorem readLength?_long {first : UInt8} {others : Bytes}
    (few : (first :: others).length ≤ 126) (nonzero : first ≠ 0)
    (long : ¬ bigEndianValue (first :: others) < 0x80) (rest : Bytes) :
    readLength? (UInt8.ofNat (0x80 + (first :: others).length) ::
        (first :: others ++ rest)) =
      some (bigEndianValue (first :: others), rest) := by
  have count : (UInt8.ofNat (0x80 + (first :: others).length)).toNat =
      0x80 + (first :: others).length :=
    UInt8.toNat_ofNat_of_lt (by change _ < 256; omega)
  generalize UInt8.ofNat (0x80 + (first :: others).length) = announced at count
  have high : ¬ announced < 0x80 := by
    rw [UInt8.lt_iff_toNat_lt, count]
    exact Nat.not_lt.mpr (Nat.le_add_right 0x80 _)
  have unreserved : ¬ (announced = 0x80 ∨ announced = 0xff) := by
    rw [← UInt8.toNat_inj, ← UInt8.toNat_inj, count]
    simp only [List.length_cons, UInt8.reduceToNat] at few ⊢
    omega
  rw [readLength?, if_neg high, if_neg unreserved]
  simp only [count, Nat.add_sub_cancel_left, List.take_left, List.drop_left]
  simp [nonzero, long]

theorem readLength?_lengthBytes {length : Nat} (bound : length < lengthBound)
    (rest : Bytes) :
    readLength? (lengthBytes length ++ rest) = some (length, rest) := by
  unfold lengthBytes
  split
  · rename_i short
    exact readLength?_short short rest
  · rename_i long
    have few : (shortestBytes length).length ≤ 126 :=
      length_shortestBytes_le_iff.mpr bound
    have value := bigEndianValue_shortestBytes length
    cases field : shortestBytes length with
    | nil =>
        have zero := shortestBytes_eq_nil_iff.mp field
        omega
    | cons first others =>
        rw [field] at few value
        rw [← value] at long
        have reads := readLength?_long few (first_shortestBytes_ne_zero field)
          long rest
        rw [value] at reads
        exact reads

theorem eq_lengthBytes_append {bytes rest : Bytes} {length : Nat}
    (reads : readLength? bytes = some (length, rest)) :
    length < lengthBound ∧ bytes = lengthBytes length ++ rest := by
  unfold readLength? at reads
  split at reads
  · contradiction
  rename_i first after
  split at reads
  · rename_i low
    cases reads
    have short : first.toNat < 0x80 := low
    refine ⟨lt_lengthBound_of_short short, ?_⟩
    rw [lengthBytes, if_pos short, UInt8.ofNat_toNat]
    rfl
  · rename_i high
    simp only [Option.ite_none_left_eq_some, Option.some.injEq,
      Prod.mk.injEq] at reads
    obtain ⟨reserved, present, long, rfl, rfl⟩ := reads
    rw [not_or] at reserved present
    have bound := first.toNat_lt
    have highValue : 0x80 ≤ first.toNat := UInt8.not_lt.mp high
    have notReserved : first.toNat ≠ 0xff := fun same =>
      reserved.2 (UInt8.toNat_inj.mp same)
    have width : (after.take (first.toNat - 128)).length =
        first.toNat - 128 := by
      have := List.length_take_le (first.toNat - 128) after
      omega
    have split := List.take_append_drop (first.toNat - 128) after
    generalize after.take (first.toNat - 128) = field
      at present long width split
    rcases field with _ | ⟨leading, others⟩
    · exact absurd (by decide) long
    have nonzero : leading ≠ 0 := fun zero => present.2 (by rw [zero]; rfl)
    have shortest := shortestBytes_bigEndianValue nonzero others
    constructor
    · apply length_shortestBytes_le_iff.mp
      rw [shortest, width]
      omega
    · have announced : 0x80 + (first.toNat - 128) = first.toNat := by omega
      rw [lengthBytes, if_neg long, shortest]
      dsimp only
      rw [width, announced, UInt8.ofNat_toNat, List.cons_append, split]

/-- A length is read from its own bytes and from no others. -/
theorem readLength?_eq_some_iff {bytes rest : Bytes} {length : Nat} :
    readLength? bytes = some (length, rest) ↔
      length < lengthBound ∧ bytes = lengthBytes length ++ rest := by
  constructor
  · exact eq_lengthBytes_append
  · rintro ⟨bound, rfl⟩
    exact readLength?_lengthBytes bound rest

theorem readInteger?_eq_some_iff {bytes content rest : Bytes} :
    readInteger? bytes = some (content, rest) ↔
      minimalContent content = true ∧ content.length < lengthBound ∧
        bytes = integerBytes content ++ rest := by
  unfold readInteger? integerBytes
  constructor
  · intro reads
    split at reads
    · obtain ⟨⟨length, after⟩, readsLength, readsContent⟩ :=
        Option.bind_eq_some_iff.mp reads
      obtain ⟨_, guarded, returned⟩ := Option.bind_eq_some_iff.mp readsContent
      obtain ⟨whole, minimal⟩ := (Option.guard_eq_some' _).mp guarded
      obtain ⟨bound, rfl⟩ := readLength?_eq_some_iff.mp readsLength
      cases returned
      refine ⟨minimal, whole.symm ▸ bound, ?_⟩
      rw [whole, List.cons_append, List.append_assoc, List.take_append_drop]
    · contradiction
  · rintro ⟨minimal, bound, rfl⟩
    simp only [List.cons_append, List.append_assoc]
    rw [readLength?_lengthBytes bound]
    simp [minimal]

theorem decodePair?_eq_some_iff {bytes : Bytes} {numbers : Nat × Nat} :
    decodePair? bytes = some numbers ↔
      ∃ first second, minimalContent first = true ∧
        minimalContent second = true ∧
        (integerBytes first ++ integerBytes second).length < lengthBound ∧
        bytes = sequenceBytes first second ∧
        numbers = (scalarNumber first, scalarNumber second) := by
  unfold decodePair? sequenceBytes
  constructor
  · intro decoded
    split at decoded
    · obtain ⟨⟨length, body⟩, readsLength, readsBody⟩ :=
        Option.bind_eq_some_iff.mp decoded
      obtain ⟨_, guarded, readsIntegers⟩ := Option.bind_eq_some_iff.mp readsBody
      obtain ⟨⟨first, afterFirst⟩, readsFirst, readsRest⟩ :=
        Option.bind_eq_some_iff.mp readsIntegers
      obtain ⟨⟨second, afterSecond⟩, readsSecond, finishes⟩ :=
        Option.bind_eq_some_iff.mp readsRest
      obtain ⟨_, finished, returned⟩ := Option.bind_eq_some_iff.mp finishes
      have whole : body.length = length := (Option.guard_eq_some' _).mp guarded
      have nothingLeft : afterSecond = [] :=
        (Option.guard_eq_some' _).mp finished
      obtain ⟨bound, rfl⟩ := readLength?_eq_some_iff.mp readsLength
      obtain ⟨minimalFirst, -, rfl⟩ := readInteger?_eq_some_iff.mp readsFirst
      obtain ⟨minimalSecond, -, rfl⟩ := readInteger?_eq_some_iff.mp readsSecond
      subst nothingLeft whole
      rw [List.append_nil] at bound ⊢
      exact ⟨first, second, minimalFirst, minimalSecond, bound, rfl,
        (Option.some.inj returned).symm⟩
    · contradiction
  · rintro ⟨first, second, minimalFirst, minimalSecond, bound, rfl, rfl⟩
    have bodyLength := bound
    simp only [integerBytes, List.length_append, List.length_cons] at bodyLength
    have readsFirst : readInteger? (integerBytes first ++ integerBytes second) =
        some (first, integerBytes second) :=
      readInteger?_eq_some_iff.mpr ⟨minimalFirst, by omega, rfl⟩
    have readsSecond : readInteger? (integerBytes second) =
        some (second, []) :=
      readInteger?_eq_some_iff.mpr
        ⟨minimalSecond, by omega, (List.append_nil _).symm⟩
    simp only [readLength?_lengthBytes bound, Option.bind_eq_bind,
      Option.bind_some, readsFirst, readsSecond]
    simp

theorem integerBytes_of_short {content : Bytes}
    (short : content.length < 0x80) :
    integerBytes content =
      0x02 :: UInt8.ofNat content.length :: content := by
  rw [integerBytes, lengthBytes, if_pos short]
  rfl

theorem length_integers_of_short {first second : Bytes}
    (short : first.length + second.length + 4 < 0x80) :
    (integerBytes first ++ integerBytes second).length =
      first.length + second.length + 4 := by
  rw [integerBytes_of_short (by omega), integerBytes_of_short (by omega)]
  simp
  omega

/-- Contents that are short enough leave one byte to every length. -/
theorem sequenceBytes_of_short {first second : Bytes}
    (short : first.length + second.length + 4 < 0x80) :
    sequenceBytes first second =
      0x30 :: UInt8.ofNat (first.length + second.length + 4) ::
        0x02 :: UInt8.ofNat first.length :: (first ++
          0x02 :: UInt8.ofNat second.length :: second) := by
  rw [sequenceBytes, length_integers_of_short short, lengthBytes,
    if_pos short, integerBytes_of_short (by omega),
    integerBytes_of_short (by omega)]
  rfl

end Der

end CoinSpend
