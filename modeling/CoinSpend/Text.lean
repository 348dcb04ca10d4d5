import CoinSpend.Bytes

/-!
# Text and its bytes

Texts are taken as their UTF-8 bytes, so positions in a text count bytes.
Everything that the library writes is ASCII: there a byte is a character, and
writing bytes as text and reading the text back changes nothing.
-/

namespace CoinSpend

/-- The UTF-8 bytes of a text. -/
def utf8Bytes (text : String) : Bytes :=
  text.toByteArray.data.toList

/-- ASCII bytes as a text. -/
def asciiText (bytes : Bytes) : String :=
  String.ofList (bytes.map fun byte => Char.ofNat byte.toNat)

theorem utf8Bytes_injective {first second : String}
    (same : utf8Bytes first = utf8Bytes second) : first = second := by
  rw [← String.toByteArray_inj]
  apply ByteArray.ext
  exact Array.toList_inj.mp same

theorem utf8Bytes_ofList (characters : List Char) :
    utf8Bytes (String.ofList characters) =
      characters.flatMap String.utf8EncodeChar := by
  simp [utf8Bytes, String.toByteArray_ofList, List.utf8Encode,
    List.data_toByteArray]

theorem utf8EncodeChar_of_ascii {byte : UInt8} (ascii : byte < 128) :
    String.utf8EncodeChar (Char.ofNat byte.toNat) = [byte] := by
  have bound : byte.toNat < 128 := ascii
  have valid : byte.toNat.isValidChar := .inl (by omega)
  have value : (Char.ofNat byte.toNat).val.toNat = byte.toNat := by
    rw [Char.ofNat, dif_pos valid]
    rfl
  have small : byte.toNat ≤ 127 := by omega
  unfold String.utf8EncodeChar
  simp only [value, small, if_true, UInt8.ofNat_toNat]

theorem utf8Bytes_asciiText {bytes : Bytes}
    (ascii : ∀ byte ∈ bytes, byte < 128) :
    utf8Bytes (asciiText bytes) = bytes := by
  unfold asciiText
  rw [utf8Bytes_ofList]
  induction bytes with
  | nil => rfl
  | cons byte bytes ih =>
      rw [List.map_cons, List.flatMap_cons,
        utf8EncodeChar_of_ascii (ascii byte List.mem_cons_self),
        ih fun other member => ascii other (List.mem_cons_of_mem byte member)]
      rfl

/-- The only text with given ASCII bytes is the one that writes them. -/
theorem utf8Bytes_eq_iff_of_ascii {text : String} {bytes : Bytes}
    (ascii : ∀ byte ∈ bytes, byte < 128) :
    utf8Bytes text = bytes ↔ text = asciiText bytes := by
  constructor
  · intro same
    apply utf8Bytes_injective
    rw [same, utf8Bytes_asciiText ascii]
  · rintro rfl
    exact utf8Bytes_asciiText ascii

/-- A byte of at least two hexadecimal digits, in lower case. -/
def hexNumber (number : Nat) : String :=
  String.ofList ((Nat.toDigits 16 number).leftpad 2 '0')

/-- A character between quotation marks.  The marks, the backslash and the
characters that have no visible form are escaped. -/
def quotedCharacter (character : Char) : String :=
  let body :=
    match character.toNat with
    | 0 => "\\0"
    | 9 => "\\t"
    | 10 => "\\n"
    | 13 => "\\r"
    | 39 => "\\'"
    | 92 => "\\\\"
    | code =>
        if code < 32 ∨ (127 ≤ code ∧ code ≤ 160) ∨ code = 173 then
          "\\u\x7b" ++ String.ofList (Nat.toDigits 16 code) ++ "\x7d"
        else character.toString
  "'" ++ body ++ "'"

end CoinSpend
