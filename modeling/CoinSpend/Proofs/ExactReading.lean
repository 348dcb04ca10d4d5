import CoinSpend.CompactSize
import CoinSpend.Proofs.Positional

/-!
# Readers that accept exactly the written forms

A reader and a writer fit together if reading succeeds with a value exactly when
the unread bytes begin with the written form of that value, and then leaves what
comes after it.  Both directions of a round trip are one equivalence this way,
and it is carried from the parts of a format to the whole.
-/

namespace CoinSpend

namespace Cursor

/-- The second cursor stands where the first one stands after passing over the
given bytes. -/
def Passes (cursor : Cursor) (bytes : Bytes) (next : Cursor) : Prop :=
  cursor.unread = bytes ++ next.unread ∧
    next.position = cursor.position + bytes.length

theorem passes_nil {cursor next : Cursor} :
    cursor.Passes [] next ↔ next = cursor := by
  constructor
  · rintro ⟨unreadEq, positionEq⟩
    cases cursor
    cases next
    simp_all
  · rintro rfl
    exact ⟨rfl, rfl⟩

theorem passes_append {cursor next : Cursor} {first second : Bytes} :
    cursor.Passes (first ++ second) next ↔
      ∃ middle, cursor.Passes first middle ∧ middle.Passes second next := by
  constructor
  · rintro ⟨unreadEq, positionEq⟩
    refine ⟨⟨cursor.position + first.length, second ++ next.unread⟩,
      ⟨by simpa using unreadEq, rfl⟩, rfl, ?_⟩
    rw [positionEq, List.length_append, Nat.add_assoc]
  · rintro ⟨middle, ⟨firstUnread, firstPosition⟩, secondUnread, secondPosition⟩
    refine ⟨by rw [firstUnread, secondUnread, List.append_assoc], ?_⟩
    rw [secondPosition, firstPosition, List.length_append, Nat.add_assoc]

/-- Passing over the first bytes of a cursor takes them off the unread ones. -/
theorem passes_take {cursor : Cursor} {count : Nat}
    (enough : count ≤ cursor.unread.length) :
    cursor.Passes (cursor.unread.take count)
      ⟨cursor.position + count, cursor.unread.drop count⟩ := by
  refine ⟨(List.take_append_drop count cursor.unread).symm, ?_⟩
  rw [List.length_take, Nat.min_eq_left enough]

/-- The second cursor stands at the first one or after it, over the same bytes. -/
def Reaches (cursor next : Cursor) : Prop :=
  ∃ passed, cursor.Passes passed next

variable {cursor middle next : Cursor} {bytes passed : Bytes}

theorem Reaches.refl (cursor : Cursor) : cursor.Reaches cursor :=
  ⟨[], passes_nil.mpr rfl⟩

theorem Reaches.trans (first : cursor.Reaches middle)
    (second : middle.Reaches next) : cursor.Reaches next := by
  obtain ⟨front, passesFront⟩ := first
  obtain ⟨back, passesBack⟩ := second
  exact ⟨front ++ back, passes_append.mpr ⟨middle, passesFront, passesBack⟩⟩

theorem Reaches.position_le (reaches : cursor.Reaches next) :
    cursor.position ≤ next.position := by
  obtain ⟨passed, -, positionEq⟩ := reaches
  omega

/-- The bytes behind and in front of a cursor that started on a byte string. -/
theorem Reaches.split (reached : (start bytes).Reaches cursor) :
    ∃ passed, bytes = passed ++ cursor.unread ∧
      cursor.position = passed.length := by
  obtain ⟨passed, bytesEq, positionEq⟩ := reached
  exact ⟨passed, bytesEq, positionEq.trans (Nat.zero_add _)⟩

theorem Reaches.position_le_length (reached : (start bytes).Reaches cursor) :
    cursor.position ≤ bytes.length := by
  obtain ⟨passed, rfl, positionEq⟩ := reached.split
  rw [positionEq, List.length_append]
  exact Nat.le_add_right _ _

theorem Reaches.unread_eq (reached : (start bytes).Reaches cursor) :
    cursor.unread = bytes.drop cursor.position := by
  obtain ⟨passed, bytesEq, positionEq⟩ := reached.split
  rw [positionEq, bytesEq, List.drop_left]

/-- What a cursor passes over are the bytes between its old and its new
position. -/
theorem Passes.extract_eq (reached : (start bytes).Reaches cursor)
    (passes : cursor.Passes passed next) :
    bytes.extract cursor.position next.position = passed := by
  obtain ⟨unreadEq, positionEq⟩ := passes
  rw [List.extract_eq_take_drop, ← reached.unread_eq, unreadEq, positionEq,
    Nat.add_sub_cancel_left, List.take_left]

end Cursor

namespace Reading

variable {α β : Type}

theorem runFrom_bind_eq_ok {reading : Reading α} {rest : α → Reading β}
    {cursor next : Cursor} {value : β} :
    (reading >>= rest).runFrom cursor = (.ok value, next) ↔
      ∃ part middle, reading.runFrom cursor = (.ok part, middle) ∧
        (rest part).runFrom middle = (.ok value, next) := by
  rw [runFrom_bind]
  rcases reading.runFrom cursor with ⟨outcome, middle⟩
  cases outcome with
  | error error => simp
  | ok part =>
      constructor
      · intro readRest
        exact ⟨part, middle, rfl, readRest⟩
      · rintro ⟨_, _, same, readRest⟩
        cases same
        exact readRest

/-- Reading succeeds with a value and a next cursor exactly when the value is
valid and its written form lies between the two cursors. -/
def Exact (reading : Reading α) (toBytes : α → Bytes) (Valid : α → Prop) :
    Prop :=
  ∀ value cursor next,
    reading.runFrom cursor = (.ok value, next) ↔
      Valid value ∧ cursor.Passes (toBytes value) next

namespace Exact

variable {reading : Reading α} {toBytes otherBytes : α → Bytes}
  {Valid OtherValid : α → Prop}

theorem congr (exact : reading.Exact toBytes Valid)
    (validIff : ∀ value, Valid value ↔ OtherValid value)
    (bytesEq : ∀ value, OtherValid value → toBytes value = otherBytes value) :
    reading.Exact otherBytes OtherValid := by
  intro value cursor next
  rw [exact value cursor next, validIff]
  exact and_congr_right fun valid => by rw [bytesEq value valid]

/-- Returning a value reads nothing. -/
theorem pure {value : α} (validIff : ∀ other, Valid other ↔ other = value) :
    (Pure.pure value : Reading α).Exact (fun _ => []) Valid := by
  intro other cursor next
  rw [runFrom_pure, validIff, Cursor.passes_nil]
  constructor
  · intro same
    cases same
    exact ⟨rfl, rfl⟩
  · rintro ⟨rfl, rfl⟩
    rfl

/-- A value is read part by part if its written form consists of the written
form of a part and of a rest that is read knowing that part. -/
theorem bind {rest : α → Reading β} {restBytes : β → Bytes}
    {WholeValid : β → Prop} (part : β → α)
    (exact : reading.Exact toBytes Valid)
    (partValid : ∀ whole, WholeValid whole → Valid (part whole))
    (restExact : ∀ value, Valid value →
      (rest value).Exact restBytes
        fun whole => WholeValid whole ∧ part whole = value) :
    (reading >>= rest).Exact
      (fun whole => toBytes (part whole) ++ restBytes whole) WholeValid := by
  intro whole cursor next
  rw [runFrom_bind_eq_ok]
  simp only [Cursor.passes_append]
  constructor
  · rintro ⟨value, middle, readPart, readRest⟩
    obtain ⟨valid, passesPart⟩ := (exact value cursor middle).mp readPart
    obtain ⟨⟨wholeValid, partEq⟩, passesRest⟩ :=
      (restExact value valid whole middle next).mp readRest
    subst partEq
    exact ⟨wholeValid, middle, passesPart, passesRest⟩
  · rintro ⟨wholeValid, middle, passesPart, passesRest⟩
    have valid := partValid whole wholeValid
    exact ⟨part whole, middle, (exact _ _ _).mpr ⟨valid, passesPart⟩,
      (restExact _ valid _ _ _).mpr ⟨⟨wholeValid, rfl⟩, passesRest⟩⟩

/-- A value that is made from what was read. -/
theorem map {make : α → β} {WholeValid : β → Prop} (part : β → α)
    (exact : reading.Exact toBytes Valid)
    (partValid : ∀ whole, WholeValid whole → Valid (part whole))
    (makeIff : ∀ value, Valid value → ∀ whole,
      (WholeValid whole ∧ part whole = value) ↔ whole = make value) :
    (do return make (← reading) : Reading β).Exact
      (fun whole => toBytes (part whole)) WholeValid := by
  have made := exact.bind part partValid
    fun value valid => Exact.pure (makeIff value valid)
  exact made.congr (fun _ => Iff.rfl) fun _ _ => List.append_nil _

/-- The written form of a valid value is read back, and nothing after it is
touched. -/
theorem runFrom_toBytes (exact : reading.Exact toBytes Valid) {value : α}
    (valid : Valid value) (position : Nat) (rest : Bytes) :
    reading.runFrom ⟨position, toBytes value ++ rest⟩ =
      (.ok value, ⟨position + (toBytes value).length, rest⟩) :=
  (exact _ _ _).mpr ⟨valid, rfl, rfl⟩

/-- Written forms are self-delimiting: no two valid values have written forms
that begin the same byte string, unless they are the same value. -/
theorem append_inj (exact : reading.Exact toBytes Valid) {first second : α}
    (firstValid : Valid first) (secondValid : Valid second)
    {firstRest secondRest : Bytes}
    (same : toBytes first ++ firstRest = toBytes second ++ secondRest) :
    first = second ∧ firstRest = secondRest := by
  have readFirst := exact.runFrom_toBytes firstValid 0 firstRest
  have readSecond := exact.runFrom_toBytes secondValid 0 secondRest
  rw [same, readSecond] at readFirst
  simp only [Prod.mk.injEq, Except.ok.injEq, Cursor.mk.injEq] at readFirst
  exact ⟨readFirst.1.symm, readFirst.2.2.symm⟩

end Exact

end Reading

theorem readFixed_exact (size : Nat) :
    (readFixed size).Exact FixedBytes.toBytes fun _ => True := by
  intro value cursor next
  rw [runFrom_readFixed]
  constructor
  · intro reads
    split at reads
    · rename_i enough
      cases reads
      refine ⟨trivial, Cursor.passes_take ?_⟩
      rw [List.length_take] at enough
      omega
    · simp at reads
  · rintro ⟨-, unreadEq, positionEq⟩
    rw [value.length_toBytes] at positionEq
    have taken : cursor.unread.take size = value.toBytes := by
      rw [unreadEq, List.take_left' value.length_toBytes]
    have dropped : cursor.unread.drop size = next.unread := by
      rw [unreadEq, List.drop_left' value.length_toBytes]
    simp only [taken, dropped, value.length_toBytes, dite_true, ← positionEq]

theorem readBytes_exact (count : Nat) :
    (readBytes count).Exact id fun bytes => bytes.length = count := by
  intro bytes cursor next
  rw [readBytes, Reading.runFrom_bind_eq_ok]
  constructor
  · rintro ⟨fixed, middle, readsFixed, returns⟩
    cases returns
    exact ⟨fixed.length_toBytes,
      ((readFixed_exact count _ _ _).mp readsFixed).2⟩
  · rintro ⟨lengthEq, passes⟩
    exact ⟨⟨bytes, lengthEq⟩, next,
      (readFixed_exact count _ _ _).mpr ⟨trivial, passes⟩, rfl⟩

theorem readNumber_exact (width : Nat) :
    (readNumber width).Exact (littleEndian width)
      fun number => number < 256 ^ width := by
  refine (readBytes_exact width).map (littleEndian width)
    (fun number _ => littleEndian_length width number) ?_
  rintro bytes rfl number
  constructor
  · rintro ⟨bound, written⟩
    rw [← written, littleEndianValue_littleEndian, Nat.mod_eq_of_lt bound]
  · rintro rfl
    exact ⟨littleEndianValue_lt bytes, littleEndian_littleEndianValue bytes⟩

/-- A fixed-width word is read exactly if it is the number in its field. -/
theorem readWord_exact {α : Type} {width : Nat} {ofNat : Nat → α}
    (toNat : α → Nat) (toNat_lt : ∀ word, toNat word < 256 ^ width)
    (ofNat_toNat : ∀ word, ofNat (toNat word) = word)
    (toNat_ofNat : ∀ number < 256 ^ width, toNat (ofNat number) = number) :
    (do return ofNat (← readNumber width) : Reading α).Exact
      (fun word => littleEndian width (toNat word)) fun _ => True := by
  refine (readNumber_exact width).map toNat (fun word _ => toNat_lt word)
    fun number bound word => ?_
  constructor
  · rintro ⟨-, rfl⟩
    exact (ofNat_toNat word).symm
  · rintro rfl
    exact ⟨trivial, toNat_ofNat number bound⟩

theorem readUInt8_exact :
    readUInt8.Exact (fun byte => [byte]) fun _ => True := by
  have exact : readUInt8.Exact _ _ :=
    readWord_exact UInt8.toNat (fun byte => byte.toNat_lt)
      (fun _ => UInt8.ofNat_toNat)
      fun number bound => UInt8.toNat_ofNat_of_lt' bound
  exact exact.congr (fun _ => Iff.rfl) fun byte _ => by simp [littleEndian]

theorem readUInt16_exact :
    readUInt16.Exact (fun word => littleEndian 2 word.toNat)
      fun _ => True :=
  readWord_exact UInt16.toNat (fun word => word.toNat_lt)
    (fun _ => UInt16.ofNat_toNat)
    fun _ bound => UInt16.toNat_ofNat_of_lt' bound

theorem readUInt32_exact :
    readUInt32.Exact (fun word => littleEndian 4 word.toNat)
      fun _ => True :=
  readWord_exact UInt32.toNat (fun word => word.toNat_lt)
    (fun _ => UInt32.ofNat_toNat)
    fun _ bound => UInt32.toNat_ofNat_of_lt' bound

theorem readUInt64_exact :
    readUInt64.Exact (fun word => littleEndian 8 word.toNat)
      fun _ => True :=
  readWord_exact UInt64.toNat (fun word => word.toNat_lt)
    (fun _ => UInt64.ofNat_toNat)
    fun _ bound => UInt64.toNat_ofNat_of_lt' bound

end CoinSpend
