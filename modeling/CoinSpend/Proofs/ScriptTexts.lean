import CoinSpend.Proofs.HexForm
import CoinSpend.Script

/-!
# The text of a script tells what the script is

An element is shown as one word, and different elements as different words: an
operation by a name with capital letters, pushed data by its small hexadecimal
digits.  Words hold no blank, so a line of them is read in one way only, and no line
of words begins like the text of a script that does not parse.
-/

namespace CoinSpend

/-- The characters of a hexadecimal text. -/
def Hex.characters : List Char := "0123456789abcdef".toList

theorem Hex.mem_characters_of_mem_encode {bytes : Bytes} {character : Char}
    (shown : character ∈ (encode bytes).toList) : character ∈ characters := by
  have ofDigit : ∀ number < 16,
      Char.ofNat (digit number).toNat ∈ characters := by
    decide
  rw [encode, asciiText, String.toList_ofList] at shown
  obtain ⟨byte, byteMem, rfl⟩ := List.mem_map.mp shown
  obtain ⟨number, bound, rfl⟩ := exists_digit_of_mem_encodeBytes byte byteMem
  exact ofDigit number bound

theorem Hex.capital_not_mem_encode (bytes : Bytes) :
    'O' ∉ (encode bytes).toList := by
  intro shown
  have isDigit := mem_characters_of_mem_encode shown
  exact absurd isDigit (by decide)

theorem hexNumber_toNat (byte : UInt8) :
    hexNumber byte.toNat = Hex.encode [byte] := by
  have written : ∀ number < 256,
      hexNumber number = Hex.encode [UInt8.ofNat number] := by
    decide +kernel
  rw [written byte.toNat byte.toNat_lt, UInt8.ofNat_toNat]

namespace Opcode

theorem name_injective {first second : Opcode}
    (same : first.name = second.name) : first = second := by
  cases first with
  | other byte =>
      cases second with
      | other another =>
          rw [name, name, String.append_right_inj, hexNumber_toNat,
            hexNumber_toNat] at same
          cases Hex.encode_injective same
          rfl
      | _ => simp [name, ← String.toList_inj] at same
  | _ => cases second <;> simp [name, ← String.toList_inj] at same ⊢

theorem capital_mem_name (code : Opcode) : 'O' ∈ code.name.toList := by
  cases code <;> simp [name]

theorem name_ne_zero (code : Opcode) : code.name ≠ "OP_0" := by
  cases code <;> simp [name, ← String.toList_inj]

end Opcode

namespace ScriptElement

/-- The characters of the words for elements. -/
def wordCharacters : List Char :=
  "OP_ACDEFGHIKLNQRSUVWY160x".toList ++ Hex.characters

theorem mem_wordCharacters_of_mem_name {code : Opcode} {character : Char}
    (shown : character ∈ code.name.toList) : character ∈ wordCharacters := by
  have fixed : ∀ name ∈ ["OP_DUP", "OP_HASH160", "OP_EQUAL", "OP_EQUALVERIFY",
      "OP_CHECKSIG", "OP_UNKNOWN_0x"], name.toList ⊆ wordCharacters := by
    decide
  cases code with
  | other byte =>
      rw [Opcode.name, String.toList_append, hexNumber_toNat] at shown
      rcases List.mem_append.mp shown with inFront | inNumber
      · exact fixed "OP_UNKNOWN_0x" (by simp) inFront
      · exact List.mem_append_right _ (Hex.mem_characters_of_mem_encode inNumber)
  | _ => exact fixed _ (by simp [Opcode.name]) shown

theorem mem_wordCharacters {element : ScriptElement} {character : Char}
    (shown : character ∈ element.text.toList) :
    character ∈ wordCharacters := by
  rcases element with code | ⟨- | ⟨byte, bytes⟩⟩
  · exact mem_wordCharacters_of_mem_name shown
  · have zero : "OP_0".toList ⊆ wordCharacters := by decide
    exact zero shown
  · exact List.mem_append_right _ (Hex.mem_characters_of_mem_encode shown)

theorem text_ne_empty (element : ScriptElement) : element.text.toList ≠ [] := by
  rcases element with code | ⟨- | ⟨byte, bytes⟩⟩
  · exact List.ne_nil_of_mem code.capital_mem_name
  · simp [text]
  · simp [text, Hex.encode, asciiText, Hex.encodeBytes]

theorem text_op_ne_push (code : Opcode) (data : Bytes) :
    text (.op code) ≠ text (.push data) := by
  intro same
  cases data with
  | nil => exact code.name_ne_zero same
  | cons byte bytes =>
      have capital := code.capital_mem_name
      change code.name = Hex.encode (byte :: bytes) at same
      rw [same] at capital
      exact Hex.capital_not_mem_encode _ capital

theorem text_push_injective {first second : Bytes}
    (same : text (.push first) = text (.push second)) : first = second := by
  have capital : 'O' ∈ "OP_0".toList := by decide
  cases first with
  | nil =>
      cases second with
      | nil => rfl
      | cons byte bytes =>
          change "OP_0" = Hex.encode (byte :: bytes) at same
          rw [same] at capital
          exact absurd capital (Hex.capital_not_mem_encode _)
  | cons byte bytes =>
      cases second with
      | nil =>
          change Hex.encode (byte :: bytes) = "OP_0" at same
          rw [← same] at capital
          exact absurd capital (Hex.capital_not_mem_encode _)
      | cons another others => exact Hex.encode_injective same

theorem text_injective {first second : ScriptElement}
    (same : first.text = second.text) : first = second := by
  cases first with
  | op code =>
      cases second with
      | op other => exact congrArg op (Opcode.name_injective same)
      | push data => exact absurd same (text_op_ne_push code data)
  | push data =>
      cases second with
      | op code => exact absurd same.symm (text_op_ne_push code data)
      | push other => exact congrArg push (text_push_injective same)

/-- The words for some elements in a line. -/
def lineText (elements : List ScriptElement) : String :=
  " ".intercalate (elements.map text)

/-- The words in a line of characters. -/
def wordsOf (line : List Char) : List (List Char) :=
  (line.splitOn ' ').filter (· ≠ [])

theorem toList_lineText (elements : List ScriptElement) :
    (lineText elements).toList =
      [' '].intercalate (elements.map fun element => element.text.toList) := by
  rw [lineText, String.toList_intercalate, List.map_map]
  rfl

theorem wordsOf_lineText (elements : List ScriptElement) :
    wordsOf (lineText elements).toList =
      elements.map fun element => element.text.toList := by
  rw [toList_lineText, wordsOf]
  cases elements with
  | nil => rfl
  | cons element elements =>
      have unbroken : ∀ word ∈ (element :: elements).map fun element =>
          element.text.toList, ' ' ∉ word := by
        intro word wordMem blank
        obtain ⟨shown, -, rfl⟩ := List.mem_map.mp wordMem
        exact absurd (mem_wordCharacters blank) (by decide)
      rw [List.splitOn_intercalate ' ' unbroken (by simp)]
      refine List.filter_eq_self.mpr fun word wordMem => ?_
      obtain ⟨shown, -, rfl⟩ := List.mem_map.mp wordMem
      simpa using text_ne_empty shown

theorem lineText_injective {first second : List ScriptElement}
    (same : lineText first = lineText second) : first = second := by
  have words := wordsOf_lineText first
  rw [same, wordsOf_lineText] at words
  refine (List.map_inj_right fun element other sameText => ?_).mp words.symm
  exact text_injective (String.toList_inj.mp sameText)

theorem mem_lineText {elements : List ScriptElement} {character : Char}
    (shown : character ∈ (lineText elements).toList) :
    character = ' ' ∨ character ∈ wordCharacters := by
  rw [toList_lineText] at shown
  induction elements with
  | nil => cases shown
  | cons element elements ih =>
      cases elements with
      | nil =>
          rw [List.map_singleton, List.intercalate_singleton] at shown
          exact .inr (mem_wordCharacters shown)
      | cons other elements =>
          rw [List.map_cons, List.map_cons, List.intercalate_cons_cons,
            List.mem_append, List.mem_append, List.mem_singleton] at shown
          rcases shown with (inWord | blank) | later
          · exact .inr (mem_wordCharacters inWord)
          · exact .inl blank
          · exact ih later

end ScriptElement

namespace Script

open ScriptElement

/-- The text of a script that does not parse. -/
def malformedText (bytes : Bytes) : String :=
  "<malformed " ++ Hex.encode bytes ++ ">"

theorem malformedText_injective {first second : Bytes}
    (same : malformedText first = malformedText second) : first = second := by
  rw [malformedText, malformedText, String.append_left_inj,
    String.append_right_inj] at same
  exact Hex.encode_injective same

theorem malformedText_ne_lineText (bytes : Bytes)
    (elements : List ScriptElement) :
    malformedText bytes ≠ lineText elements := by
  intro same
  have opens : '<' ∈ (malformedText bytes).toList := by simp [malformedText]
  rw [same] at opens
  rcases mem_lineText opens with blank | inWord
  · exact absurd blank (by decide)
  · exact absurd inWord (by decide)

variable {script : Script}

theorem text_of_elements {elements : List ScriptElement}
    (parsed : script.elements = .ok elements) :
    script.text = lineText elements := by
  rw [text, parsed]
  rfl

theorem text_of_error {error : Error}
    (refused : script.elements = .error error) :
    script.text = malformedText script.toBytes := by
  rw [text, refused]
  rfl

/-- A script that parses never looks like one that does not. -/
theorem text_ne_text {first second : Script} {elements : List ScriptElement}
    {error : Error} (parsed : first.elements = .ok elements)
    (refused : second.elements = .error error) : first.text ≠ second.text := by
  rw [text_of_elements parsed, text_of_error refused]
  exact (malformedText_ne_lineText _ _).symm

theorem text_eq_text_iff (first second : Script) :
    first.text = second.text ↔
      (∃ elements, first.elements = .ok elements ∧
        second.elements = .ok elements) ∨
      (∃ error, first.elements = .error error) ∧
        (∃ error, second.elements = .error error) ∧
        first.toBytes = second.toBytes := by
  cases firstParsed : first.elements with
  | ok elements =>
      cases secondParsed : second.elements with
      | ok others =>
          rw [text_of_elements firstParsed, text_of_elements secondParsed]
          constructor
          · intro same
            exact .inl ⟨elements, rfl,
              congrArg Except.ok (lineText_injective same).symm⟩
          · rintro (⟨found, firstEq, secondEq⟩ | ⟨⟨error, impossible⟩, -⟩)
            · cases firstEq
              cases secondEq
              rfl
            · cases impossible
      | error error =>
          exact iff_of_false (text_ne_text firstParsed secondParsed) (by simp)
  | error error =>
      cases secondParsed : second.elements with
      | ok others =>
          exact iff_of_false (text_ne_text secondParsed firstParsed).symm
            (by simp)
      | error other =>
          rw [text_of_error firstParsed, text_of_error secondParsed]
          constructor
          · intro same
            exact .inr ⟨⟨error, rfl⟩, ⟨other, rfl⟩, malformedText_injective same⟩
          · rintro (⟨found, impossible, -⟩ | ⟨-, -, sameBytes⟩)
            · cases impossible
            · rw [sameBytes]

/-- Two scripts have the same text exactly if they parse to the same elements, or
if neither parses and they have the same bytes.  The word for pushed data is the
line of no other elements, and no line of words is the text of a script that does
not parse. -/
theorem text_unambiguous :
    (∀ first second : Script, first.text = second.text ↔
      (∃ elements, first.elements = .ok elements ∧
        second.elements = .ok elements) ∨
      (∃ error, first.elements = .error error) ∧
        (∃ error, second.elements = .error error) ∧
        first.toBytes = second.toBytes) ∧
    (∀ (data : Bytes) (elements : List ScriptElement),
      (ScriptElement.push data).text =
          " ".intercalate (elements.map ScriptElement.text) ↔
        elements = [.push data]) ∧
    ∀ (bytes : Bytes) (elements : List ScriptElement),
      "<malformed " ++ Hex.encode bytes ++ ">" ≠
        " ".intercalate (elements.map ScriptElement.text) := by
  refine ⟨text_eq_text_iff, fun data elements => ?_, malformedText_ne_lineText⟩
  have alone : (ScriptElement.push data).text = lineText [.push data] := rfl
  rw [alone]
  constructor
  · exact fun same => (lineText_injective same).symm
  · rintro rfl
    rfl

end Script

end CoinSpend
