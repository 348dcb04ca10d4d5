import CoinSpend.Error

/-!
# Hexadecimal texts are read up to the case of their letters

A digit stands for the number whose small digit it becomes when its letter is
lowered.  So a text is read exactly if lowering its letters gives the written form
of what it is read as, and different byte strings are written differently.
-/

namespace CoinSpend

/-- A byte with its letter lowered, if it is the code of a capital letter. -/
def loweredByte (byte : UInt8) : UInt8 :=
  if 65 ≤ byte ∧ byte ≤ 90 then byte + 32 else byte

theorem toNat_loweredByte (byte : UInt8) :
    (loweredByte byte).toNat =
      if 65 ≤ byte.toNat ∧ byte.toNat ≤ 90 then byte.toNat + 32
      else byte.toNat := by
  unfold loweredByte
  simp only [UInt8.le_iff_toNat_le, UInt8.reduceToNat]
  split
  · rw [UInt8.toNat_add]
    change (byte.toNat + 32) % 256 = _
    omega
  · rfl

theorem loweredByte_of_high {byte : UInt8} (high : 128 ≤ byte.toNat) :
    loweredByte byte = byte := by
  rw [← UInt8.toNat_inj, toNat_loweredByte, if_neg (by omega)]

theorem toNat_toLower (character : Char) :
    character.toLower.toNat =
      if 65 ≤ character.toNat ∧ character.toNat ≤ 90 then character.toNat + 32
      else character.toNat := by
  have upperIff : (character.val ≥ 'A'.val ∧ character.val ≤ 'Z'.val) ↔
      65 ≤ character.toNat ∧ character.toNat ≤ 90 := Iff.rfl
  unfold Char.toLower
  split
  · rename_i upper
    have bounds := upperIff.mp upper
    rw [if_pos bounds]
    change (character.val + 32).toNat = _
    rw [UInt32.toNat_add]
    change (character.toNat + 32) % 2 ^ 32 = _
    omega
  · rename_i notUpper
    rw [if_neg (mt upperIff.mpr notUpper)]

theorem high_of_mem_utf8EncodeChar {character : Char}
    (beyond : 127 < character.toNat) :
    ∀ byte ∈ String.utf8EncodeChar character, 128 ≤ byte.toNat := by
  have notAscii : ¬ character.val.toNat ≤ 127 := Nat.not_le.mpr beyond
  unfold String.utf8EncodeChar
  simp only [notAscii, if_false]
  repeat' split
  all_goals
    simp only [List.forall_mem_cons, List.not_mem_nil, false_imp_iff,
      implies_true, and_true, UInt8.toNat_ofNat']
    omega

/-- Lowering a character lowers its bytes.  The bytes of a character outside of
ASCII are no codes of letters. -/
theorem utf8EncodeChar_toLower (character : Char) :
    String.utf8EncodeChar character.toLower =
      (String.utf8EncodeChar character).map loweredByte := by
  have lowered := toNat_toLower character
  by_cases ascii : character.toNat ≤ 127
  · have loweredAscii : character.toLower.toNat ≤ 127 := by
      rw [lowered]
      split <;> omega
    have encode (other : Char) (small : other.toNat ≤ 127) :
        String.utf8EncodeChar other = [UInt8.ofNat other.toNat] := if_pos small
    rw [encode _ ascii, encode _ loweredAscii, List.map_singleton,
      List.singleton_inj, ← UInt8.toNat_inj, toNat_loweredByte,
      UInt8.toNat_ofNat', UInt8.toNat_ofNat', Nat.mod_eq_of_lt (by omega),
      Nat.mod_eq_of_lt (by omega), lowered]
  · have kept : character.toLower = character := by
      refine Char.toNat_inj.mp ?_
      rw [lowered, if_neg (by omega)]
    have high := high_of_mem_utf8EncodeChar (Nat.lt_of_not_le ascii)
    rw [kept, List.map_congr_left fun byte byteMem =>
      loweredByte_of_high (high byte byteMem), List.map_id']

/-- Lowering a text lowers its bytes. -/
theorem utf8Bytes_toLower (text : String) :
    utf8Bytes text.toLower = (utf8Bytes text).map loweredByte := by
  obtain ⟨characters, rfl⟩ : ∃ characters, text = String.ofList characters :=
    ⟨text.toList, String.ofList_toList.symm⟩
  have lowered : (String.ofList characters).toLower =
      String.ofList (characters.map Char.toLower) := by
    change String.map Char.toLower (String.ofList characters) = _
    rw [← String.toList_inj, String.toList_map, String.toList_ofList,
      String.toList_ofList]
  rw [lowered, utf8Bytes_ofList, utf8Bytes_ofList, List.flatMap_map,
    List.map_flatMap]
  simp only [utf8EncodeChar_toLower]

namespace Hex

theorem toNat_digit {number : Nat} (bound : number < 16) :
    (digit number).toNat = if number < 10 then 48 + number else 87 + number := by
  unfold digit
  split
  · exact UInt8.toNat_ofNat_of_lt (by change _ < 256; omega)
  · exact UInt8.toNat_ofNat_of_lt (by change _ < 256; omega)

theorem digitValue?_eq_some_iff {byte : UInt8} {number : Nat} :
    digitValue? byte = some number ↔
      number < 16 ∧ loweredByte byte = digit number := by
  unfold digitValue?
  simp only [UInt8.le_iff_toNat_le, UInt8.reduceToNat, ← UInt8.toNat_inj,
    toNat_loweredByte]
  constructor
  · intro found
    have bound : number < 16 := by grind
    refine ⟨bound, ?_⟩
    rw [toNat_digit bound]
    grind
  · rintro ⟨bound, lowers⟩
    rw [toNat_digit bound] at lowers
    grind

theorem digitAt_eq_ok_iff {byte : UInt8} {offset number : Nat} :
    digitAt byte offset = .ok number ↔
      number < 16 ∧ loweredByte byte = digit number := by
  rw [← digitValue?_eq_some_iff, digitAt]
  cases digitValue? byte <;> simp

theorem length_encodeBytes (bytes : Bytes) :
    (encodeBytes bytes).length = 2 * bytes.length := by
  induction bytes with
  | nil => rfl
  | cons byte bytes ih =>
      simp only [encodeBytes, List.length_cons, ih]
      omega

/-- Bytes are read exactly if lowering the letters among them gives the digits of
what they are read as. -/
theorem decodeFrom_eq_ok_iff {offset : Nat} {digits bytes : Bytes} :
    decodeFrom offset digits = .ok bytes ↔
      digits.map loweredByte = encodeBytes bytes := by
  induction offset, digits using decodeFrom.induct generalizing bytes with
  | case1 offset =>
      cases bytes with
      | nil => simp [decodeFrom, encodeBytes]
      | cons byte bytes => simp [decodeFrom, encodeBytes]
  | case2 offset digit =>
      cases bytes with
      | nil => simp [decodeFrom, encodeBytes]
      | cons byte bytes => simp [decodeFrom, encodeBytes]
  | case3 offset high low rest ih =>
      simp only [decodeFrom, Error.bind_eq_ok_iff, digitAt_eq_ok_iff, ih]
      constructor
      · rintro ⟨upper, ⟨upperBound, upperEq⟩, lower, ⟨lowerBound, lowerEq⟩, others,
          othersEq, returns⟩
        cases returns
        have halves : (UInt8.ofNat (16 * upper + lower)).toNat =
            16 * upper + lower := by
          rw [UInt8.toNat_ofNat', Nat.mod_eq_of_lt (by omega)]
        have first : (16 * upper + lower) / 16 = upper := by omega
        have second : (16 * upper + lower) % 16 = lower := by omega
        rw [encodeBytes, halves, first, second, List.map_cons, List.map_cons,
          upperEq, lowerEq, othersEq]
      · intro lowers
        cases bytes with
        | nil => cases lowers
        | cons byte bytes =>
            rw [encodeBytes, List.map_cons, List.map_cons, List.cons.injEq,
              List.cons.injEq] at lowers
            obtain ⟨highEq, lowEq, restEq⟩ := lowers
            have bound := byte.toNat_lt
            have whole : 16 * (byte.toNat / 16) + byte.toNat % 16 =
                byte.toNat := Nat.div_add_mod _ _
            refine ⟨byte.toNat / 16, ⟨by omega, highEq⟩, byte.toNat % 16,
              ⟨by omega, lowEq⟩, bytes, restEq, ?_⟩
            rw [whole, UInt8.ofNat_toNat]
            rfl

theorem exists_digit_of_mem_encodeBytes {bytes : Bytes} :
    ∀ byte ∈ encodeBytes bytes, ∃ number < 16, byte = digit number := by
  induction bytes with
  | nil => exact List.forall_mem_nil _
  | cons first bytes ih =>
      have bound := first.toNat_lt
      rw [encodeBytes, List.forall_mem_cons, List.forall_mem_cons]
      exact ⟨⟨first.toNat / 16, by omega, rfl⟩,
        ⟨first.toNat % 16, by omega, rfl⟩, ih⟩

theorem ascii_of_mem_encodeBytes {bytes : Bytes} :
    ∀ byte ∈ encodeBytes bytes, byte < 128 := by
  intro byte byteMem
  obtain ⟨number, bound, rfl⟩ := exists_digit_of_mem_encodeBytes byte byteMem
  rw [UInt8.lt_iff_toNat_lt, toNat_digit bound]
  change _ < 128
  split <;> omega

theorem map_loweredByte_encodeBytes (bytes : Bytes) :
    (encodeBytes bytes).map loweredByte = encodeBytes bytes := by
  have small : ∀ byte ∈ encodeBytes bytes, loweredByte byte = byte := by
    intro byte byteMem
    obtain ⟨number, bound, rfl⟩ := exists_digit_of_mem_encodeBytes byte byteMem
    rw [← UInt8.toNat_inj, toNat_loweredByte, toNat_digit bound]
    exact if_neg (by split <;> omega)
  rw [List.map_congr_left small, List.map_id']

/-- A text is read exactly if lowering its letters gives the written form of what
it is read as. -/
theorem decode_eq_ok_iff {text : String} {bytes : Bytes} :
    decode text = .ok bytes ↔ text.toLower = encode bytes := by
  have evenLength (lowers : (utf8Bytes text).map loweredByte =
      encodeBytes bytes) : (utf8Bytes text).length = 2 * bytes.length := by
    rw [← length_encodeBytes, ← lowers, List.length_map]
  rw [encode, ← utf8Bytes_eq_iff_of_ascii ascii_of_mem_encodeBytes,
    utf8Bytes_toLower, decode]
  split
  · rename_i odd
    refine iff_of_false nofun fun lowers => ?_
    have even := evenLength lowers
    omega
  · exact decodeFrom_eq_ok_iff

theorem toLower_encode (bytes : Bytes) :
    (encode bytes).toLower = encode bytes := by
  apply utf8Bytes_injective
  rw [utf8Bytes_toLower, encode, utf8Bytes_asciiText ascii_of_mem_encodeBytes,
    map_loweredByte_encodeBytes]

theorem decode_encode (bytes : Bytes) : decode (encode bytes) = .ok bytes :=
  decode_eq_ok_iff.mpr (toLower_encode bytes)

theorem encode_injective {first second : Bytes}
    (same : encode first = encode second) : first = second := by
  have read := decode_encode first
  rw [same, decode_encode, Except.ok.injEq] at read
  exact read.symm

end Hex

end CoinSpend
