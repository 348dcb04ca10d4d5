import CoinSpend.Proofs.TextForms

/-!
# What a guarded text is read as, and why others are refused

The digits of a base 58 text and the bytes it stands for denote the same number,
and leading zeros are kept one for one.  A guarded text stands for a version, a
payload and their checksum.  Refusing a text tells two cases apart: a checksum
that does not fit, and a text that has no place for a checksum and a version.
-/

namespace CoinSpend

theorem bigEndianValue_eq_value (bytes : Bytes) :
    bigEndianValue bytes = Radix.value 256 (bytes.map UInt8.toNat) := by
  rw [bigEndianValue, littleEndianValue_eq_ofDigits, Radix.value_eq_ofDigits,
    List.map_reverse]

theorem length_takeWhile_zero_map_toNat (bytes : Bytes) :
    ((bytes.map UInt8.toNat).takeWhile (· == 0)).length =
      (bytes.takeWhile (· == 0)).length := by
  have sameTest : ((· == 0) ∘ UInt8.toNat) = (· == (0 : UInt8)) := by
    funext byte
    rw [Function.comp_apply, Bool.eq_iff_iff, beq_iff_eq, beq_iff_eq,
      ← UInt8.toNat_inj]
    rfl
  rw [List.takeWhile_map, List.length_map, sameTest]

namespace Base58

/-- The characters that are digits, in the order of their values. -/
def characters : List Char :=
  (List.range 58).map fun value => Char.ofNat (digit value).toNat

theorem mem_characters_iff {character : Char} :
    character ∈ characters ↔
      ∃ value < 58, Char.ofNat (digit value).toNat = character := by
  simp [characters]

/-- Whether a text stands for a byte string: both denote the same number, the
text in base 58, and the text begins with one zero digit for each zero byte that
the byte string begins with. -/
def Denotes (text : String) (bytes : Bytes) : Prop :=
  ∃ values : List Nat, (∀ value ∈ values, value < 58) ∧
    text = asciiText (values.map digit) ∧
    Radix.value 58 values = bigEndianValue bytes ∧
    (values.takeWhile (· == 0)).length = (bytes.takeWhile (· == 0)).length

theorem denotes_iff {text : String} {bytes : Bytes} :
    Denotes text bytes ↔ text = encode bytes := by
  have aboveOne : 1 < 58 := by decide
  unfold Denotes encode
  simp only [bigEndianValue_eq_value, ← length_takeWhile_zero_map_toNat]
  generalize bytes.map UInt8.toNat = numbers
  constructor
  · rintro ⟨values, bounded, written, sameValue, sameZeros⟩
    rw [written, (Radix.eq_convert_iff aboveOne).mpr
      ⟨bounded, sameValue, sameZeros⟩]
  · intro written
    obtain ⟨bounded, sameValue, sameZeros⟩ := (Radix.eq_convert_iff aboveOne).mp
      (rfl : Radix.convert 256 58 numbers = _)
    exact ⟨_, bounded, written, sameValue, sameZeros⟩

example : encode [0, 0, 1] = "112" := by
  decide

theorem decode_eq_ok_iff_denotes {text : String} {bytes : Bytes} :
    decode text = .ok bytes ↔ Denotes text bytes :=
  decode_eq_ok_iff.trans denotes_iff.symm

/-- Characters that are digits have values. -/
theorem exists_values_iff {text : String} :
    (∃ values : List Nat, (∀ value ∈ values, value < 58) ∧
      text = asciiText (values.map digit)) ↔
      ∀ character ∈ text.toList, character ∈ characters := by
  simp only [mem_characters_iff, asciiText, ← String.toList_inj,
    String.toList_ofList, List.map_map]
  generalize text.toList = spelled
  constructor
  · rintro ⟨values, bounded, rfl⟩ character characterMem
    obtain ⟨value, valueMem, rfl⟩ := List.mem_map.mp characterMem
    exact ⟨value, bounded value valueMem, rfl⟩
  · intro digits
    induction spelled with
    | nil => exact ⟨[], List.forall_mem_nil _, rfl⟩
    | cons character others ih =>
        obtain ⟨isDigit, othersDigits⟩ := List.forall_mem_cons.mp digits
        obtain ⟨value, bound, rfl⟩ := isDigit
        obtain ⟨values, bounded, rfl⟩ := ih othersDigits
        exact ⟨value :: values, List.forall_mem_cons.mpr ⟨bound, bounded⟩, rfl⟩

/-- A text stands for some byte string exactly if all its characters are digits. -/
theorem exists_denotes_iff {text : String} :
    (∃ bytes, Denotes text bytes) ↔
      ∀ character ∈ text.toList, character ∈ characters := by
  rw [← exists_values_iff]
  constructor
  · rintro ⟨bytes, values, bounded, written, -⟩
    exact ⟨values, bounded, written⟩
  · rintro ⟨values, bounded, written⟩
    have found : digitValues 0 (utf8Bytes text) = .ok values :=
      digitValues_eq_ok_iff.mpr ⟨bounded, utf8Bytes_eq_iff.mpr written⟩
    have read : decode text =
        .ok ((Radix.convert 58 256 values).map UInt8.ofNat) := by
      rw [decode, found]
      rfl
    exact ⟨_, decode_eq_ok_iff_denotes.mp read⟩

theorem exists_decode_eq_error_iff {text : String} :
    (∃ fault, decode text = .error fault) ↔
      ∃ character ∈ text.toList, character ∉ characters := by
  have refused : (∃ character ∈ text.toList, character ∉ characters) ↔
      ¬ ∃ bytes, decode text = .ok bytes := by
    simp only [decode_eq_ok_iff_denotes, exists_denotes_iff, not_forall,
      exists_prop]
  rw [refused]
  cases decode text <;> simp

end Base58

namespace Base58Check

theorem decode_eq_error_iff {text : String} {error : Error} :
    decode text = .error error ↔
      (∃ fault, Base58.decode text = .error fault ∧ .base58 fault = error) ∨
      ∃ bytes, Base58.Denotes text bytes ∧
        (bytes.length < 4 ∧ .base58 .missingChecksum = error ∨
          ¬ bytes.length < 4 ∧
            (bytes.drop (bytes.length - 4) ≠
                checksum (bytes.take (bytes.length - 4)) ∧
              .checksumMismatch = error ∨
            bytes.drop (bytes.length - 4) =
                checksum (bytes.take (bytes.length - 4)) ∧
              bytes.take (bytes.length - 4) = [] ∧
              .base58 .missingVersion = error)) := by
  simp only [decode, Error.bind_eq_error_iff, Error.mapError_eq_error_iff,
    Error.mapError_eq_ok_iff, Error.check_eq_error_iff,
    Base58.decode_eq_ok_iff_denotes, ne_eq, Decidable.not_not]
  refine or_congr_right (exists_congr fun bytes => and_congr_right fun _ =>
    or_congr_right (and_congr_right fun _ => or_congr_right
      (and_congr_right fun _ => ?_)))
  cases bytes.take (bytes.length - 4) with
  | nil => simp [throw, throwThe, MonadExceptOf.throw]
  | cons version payload => simp [pure, Except.pure]

theorem decode_eq_checksumMismatch_iff {text : String} :
    decode text = .error .checksumMismatch ↔
      ∃ bytes, Base58.Denotes text bytes ∧ 4 ≤ bytes.length ∧
        bytes.drop (bytes.length - 4) ≠
          checksum (bytes.take (bytes.length - 4)) := by
  simp only [decode_eq_error_iff, reduceCtorEq, and_false, exists_false,
    false_or, and_true, or_false, Nat.not_lt]

/-- Four bytes that are the checksum of no bytes leave no version. -/
theorem guards_nothing_iff {bytes : Bytes} (enough : 4 ≤ bytes.length) :
    bytes.drop (bytes.length - 4) =
          checksum (bytes.take (bytes.length - 4)) ∧
        bytes.take (bytes.length - 4) = [] ↔
      bytes = checksum [] := by
  constructor
  · rintro ⟨guarded, nothing⟩
    rw [← List.take_append_drop (bytes.length - 4) bytes, guarded, nothing,
      List.nil_append]
  · rintro rfl
    rw [checksum_length, Nat.sub_self, List.drop_zero, List.take_zero]
    exact ⟨rfl, rfl⟩

theorem exists_decode_eq_base58_iff {text : String} :
    (∃ fault, decode text = .error (.base58 fault)) ↔
      (∃ character ∈ text.toList, character ∉ Base58.characters) ∨
        ∃ bytes, Base58.Denotes text bytes ∧
          (bytes.length < 4 ∨ bytes = checksum []) := by
  rw [← Base58.exists_decode_eq_error_iff]
  simp only [decode_eq_error_iff, Error.base58.injEq, reduceCtorEq, and_false,
    false_or]
  constructor
  · rintro ⟨_, ⟨fault, refused, rfl⟩ | ⟨bytes, denotes, found⟩⟩
    · exact .inl ⟨fault, refused⟩
    · refine .inr ⟨bytes, denotes, ?_⟩
      rcases found with ⟨short, -⟩ | ⟨long, guarded, nothing, -⟩
      · exact .inl short
      · exact .inr
          ((guards_nothing_iff (Nat.not_lt.mp long)).mp ⟨guarded, nothing⟩)
  · rintro (⟨fault, refused⟩ | ⟨bytes, denotes, short | nothing⟩)
    · exact ⟨fault, .inl ⟨fault, refused, rfl⟩⟩
    · exact ⟨.missingChecksum, .inr ⟨bytes, denotes, .inl ⟨short, rfl⟩⟩⟩
    · have enough : 4 ≤ bytes.length := by
        rw [nothing, checksum_length]
      obtain ⟨guarded, empty⟩ := (guards_nothing_iff enough).mpr nothing
      exact ⟨.missingVersion, .inr ⟨bytes, denotes,
        .inr ⟨Nat.not_lt.mpr enough, guarded, empty, rfl⟩⟩⟩

theorem decode_cases (text : String) :
    (∃ version payload, decode text = .ok (version, payload)) ∨
      decode text = .error .checksumMismatch ∨
      ∃ fault, decode text = .error (.base58 fault) := by
  cases outcome : decode text with
  | ok parts => exact .inl ⟨parts.1, parts.2, rfl⟩
  | error error =>
      right
      rcases decode_eq_error_iff.mp outcome with ⟨fault, -, rfl⟩ | ⟨bytes, -, found⟩
      · exact .inr ⟨fault, rfl⟩
      · rcases found with ⟨-, rfl⟩ | ⟨-, ⟨-, rfl⟩ | ⟨-, -, rfl⟩⟩
        · exact .inr ⟨_, rfl⟩
        · exact .inl rfl
        · exact .inr ⟨_, rfl⟩

/-- A text is read as a version and a payload exactly if it is their written
form, which stands for them and their checksum.  Any other text is refused, with
a mismatch if it stands for bytes that end in a wrong checksum and else as no
guarded text at all. -/
theorem decode_determined (text : String) :
    (∀ version payload,
      decode text = .ok (version, payload) ↔ text = encode version payload) ∧
      (∀ version payload,
        text = encode version payload ↔
          Base58.Denotes text (version :: payload ++
            (doubleSha256 (version :: payload)).toBytes.take 4)) ∧
      (decode text = .error .checksumMismatch ↔
        (∀ character ∈ text.toList, character ∈ Base58.characters) ∧
          ∃ bytes, Base58.Denotes text bytes ∧ 4 ≤ bytes.length ∧
            bytes.drop (bytes.length - 4) ≠
              (doubleSha256 (bytes.take (bytes.length - 4))).toBytes.take 4) ∧
      ((∃ fault, decode text = .error (.base58 fault)) ↔
        (∃ character ∈ text.toList, character ∉ Base58.characters) ∨
          ∃ bytes, Base58.Denotes text bytes ∧
            (bytes.length < 4 ∨
              bytes = (doubleSha256 []).toBytes.take 4)) ∧
      ((∃ version payload, decode text = .ok (version, payload)) ∨
        decode text = .error .checksumMismatch ∨
        ∃ fault, decode text = .error (.base58 fault)) := by
  refine ⟨fun _ _ => decode_eq_ok_iff, fun _ _ => Base58.denotes_iff.symm, ?_,
    exists_decode_eq_base58_iff, decode_cases text⟩
  rw [decode_eq_checksumMismatch_iff]
  constructor
  · intro mismatch
    have denotes := mismatch.imp fun _ found => found.1
    exact ⟨Base58.exists_denotes_iff.mp denotes, mismatch⟩
  · exact And.right

end Base58Check

end CoinSpend
