import CoinSpend.Json
import CoinSpend.Proofs.Positional

/-!
# Numbers and strings in JSON texts

Reading a number stops where the text cannot go on with it, and reading a string
stops at its closing quotation mark, whatever follows.  So both are read from a
longer text as they are from their own.  The decimal literal of a natural number
is such a number and stands for it, and a plain text is a string that stands for
itself.
-/

namespace CoinSpend

namespace Json

/-! ## Numbers -/

/-- Literals that are numbers as they stand. -/
def IsNumber (literal : List Char) : Prop :=
  scanNumber? literal = some (literal, [])

/-- A text that cannot go on with a number before it. -/
def EndsNumber : List Char → Prop
  | [] => True
  | next :: _ =>
      next.isDigit = false ∧ next ≠ '.' ∧ next ≠ 'e' ∧ next ≠ 'E'

/-- What a number is after its sign. -/
def scanUnsigned? (text : List Char) : Option (List Char × List Char) := do
  let (whole, afterWhole) ← scanWhole? text
  let (fraction, afterFraction) ← scanFraction? afterWhole
  let (exponent, rest) ← scanExponent? afterFraction
  return (whole ++ fraction ++ exponent, rest)

section Scanning

variable {text read after rest : List Char}

theorem scanDigits?_eq_some_iff :
    scanDigits? text = some (read, after) ↔
      text.takeWhile Char.isDigit = read ∧ read ≠ [] ∧
        text.dropWhile Char.isDigit = after := by
  unfold scanDigits?
  simp only
  split
  · rename_i noDigits
    simp only [reduceCtorEq, false_iff]
    rintro ⟨rfl, nonempty, -⟩
    exact nonempty noDigits
  · rename_i someDigits
    simp only [Option.some.injEq, Prod.mk.injEq]
    constructor
    · rintro ⟨rfl, rfl⟩
      exact ⟨rfl, someDigits, rfl⟩
    · rintro ⟨rfl, -, rfl⟩
      exact ⟨rfl, rfl⟩

theorem scanWhole?_eq_some_iff :
    scanWhole? text = some (read, after) ↔
      scanDigits? text = some (read, after) ∧
        (read.length = 1 ∨ read.head? ≠ some '0') := by
  simp [scanWhole?, Option.bind_eq_some_iff]

theorem scanNumber?_minus (text : List Char) :
    scanNumber? ('-' :: text) =
      (scanUnsigned? text).map fun (read, after) => ('-' :: read, after) := by
  simp [scanNumber?, scanUnsigned?, Option.map_bind]

theorem scanNumber?_cons {first : Char} (unsigned : first ≠ '-') :
    scanNumber? (first :: text) = scanUnsigned? (first :: text) := by
  simp [scanNumber?, scanUnsigned?, unsigned]

/-- A number begins with its sign or with a digit. -/
theorem exists_cons_of_scanNumber?
    (scanned : scanNumber? text = some (read, after)) :
    ∃ first tail, text = first :: tail ∧ (first = '-' ∨ first.isDigit) := by
  cases text with
  | nil => simp [scanNumber?, scanWhole?, scanDigits?] at scanned
  | cons first tail =>
      refine ⟨first, tail, rfl, ?_⟩
      by_contra! other
      simp [scanNumber?, scanWhole?, scanDigits?, other] at scanned

theorem EndsNumber.noDigits (ends : EndsNumber rest) :
    rest.takeWhile Char.isDigit = [] ∧ rest.dropWhile Char.isDigit = rest := by
  cases rest with
  | nil => exact ⟨rfl, rfl⟩
  | cons next rest => simp [ends.1]

theorem takeWhile_append_of_endsNumber (ends : EndsNumber rest) :
    (text ++ rest).takeWhile Char.isDigit = text.takeWhile Char.isDigit := by
  rw [List.takeWhile_append, ends.noDigits.1]
  split
  · rename_i whole
    rw [List.append_nil, (List.takeWhile_prefix _).eq_of_length whole]
  · rfl

theorem dropWhile_append_of_endsNumber (ends : EndsNumber rest) :
    (text ++ rest).dropWhile Char.isDigit =
      text.dropWhile Char.isDigit ++ rest := by
  rw [List.dropWhile_append, ends.noDigits.2]
  split
  · rename_i whole
    rw [List.isEmpty_iff.mp whole, List.nil_append]
  · rfl

theorem scanDigits?_append (scanned : scanDigits? text = some (read, after))
    (ends : EndsNumber rest) :
    scanDigits? (text ++ rest) = some (read, after ++ rest) := by
  rw [scanDigits?_eq_some_iff] at scanned ⊢
  obtain ⟨digits, nonempty, others⟩ := scanned
  rw [takeWhile_append_of_endsNumber ends, dropWhile_append_of_endsNumber ends]
  exact ⟨digits, nonempty, congrArg (· ++ rest) others⟩

theorem scanWhole?_append (scanned : scanWhole? text = some (read, after))
    (ends : EndsNumber rest) :
    scanWhole? (text ++ rest) = some (read, after ++ rest) := by
  rw [scanWhole?_eq_some_iff] at scanned ⊢
  exact scanned.imp_left (scanDigits?_append · ends)

theorem scanFraction?_append
    (scanned : scanFraction? text = some (read, after))
    (ends : EndsNumber rest) :
    scanFraction? (text ++ rest) = some (read, after ++ rest) := by
  unfold scanFraction? at scanned
  split at scanned
  · rename_i fraction
    simp only [Option.bind_eq_bind, Option.bind_eq_some_iff, Prod.exists,
      Option.pure_def, Option.some.injEq, Prod.mk.injEq] at scanned
    obtain ⟨digits, _, digitsScanned, rfl, rfl⟩ := scanned
    simp [scanFraction?, scanDigits?_append digitsScanned ends]
  · rename_i noPoint
    cases scanned
    unfold scanFraction?
    split
    · -- The point would be the first character of one text or of the other.
      rename_i starts
      rcases List.append_eq_cons_iff.mp starts with
        ⟨rfl, rfl⟩ | ⟨tail, rfl, -⟩
      · exact absurd rfl ends.2.1
      · exact absurd rfl (noPoint tail)
    · rfl

theorem scanSign_append (nonempty : text ≠ []) :
    scanSign (text ++ rest) =
      ((scanSign text).1, (scanSign text).2 ++ rest) := by
  obtain ⟨first, tail, rfl⟩ := List.exists_cons_of_ne_nil nonempty
  by_cases plus : first = '+'
  · simp [scanSign, plus]
  · by_cases minus : first = '-'
    · simp [scanSign, minus]
    · simp [scanSign, plus, minus]

theorem scanExponent?_append
    (scanned : scanExponent? text = some (read, after))
    (ends : EndsNumber rest) :
    scanExponent? (text ++ rest) = some (read, after ++ rest) := by
  unfold scanExponent? at scanned
  split at scanned
  · cases scanned
    cases rest with
    | nil => rfl
    | cons next rest => simp [scanExponent?, ends.2.2]
  · rename_i mark exponent
    split at scanned
    · rename_i marked
      simp only [Option.bind_eq_bind, Option.bind_eq_some_iff, Prod.exists,
        Option.pure_def, Option.some.injEq, Prod.mk.injEq] at scanned
      obtain ⟨digits, _, digitsScanned, rfl, rfl⟩ := scanned
      have nonempty : exponent ≠ [] := by
        rintro rfl
        simp [scanSign, scanDigits?] at digitsScanned
      simp [scanExponent?, marked, scanSign_append nonempty,
        scanDigits?_append digitsScanned ends]
    · rename_i unmarked
      cases scanned
      simp [scanExponent?, unmarked]

theorem scanUnsigned?_append
    (scanned : scanUnsigned? text = some (read, after))
    (ends : EndsNumber rest) :
    scanUnsigned? (text ++ rest) = some (read, after ++ rest) := by
  simp only [scanUnsigned?, Option.bind_eq_bind, Option.bind_eq_some_iff,
    Prod.exists, Option.pure_def, Option.some.injEq,
    Prod.mk.injEq] at scanned
  obtain ⟨whole, _, wholeScanned, fraction, _, fractionScanned, exponent, _,
    exponentScanned, rfl, rfl⟩ := scanned
  simp [scanUnsigned?, scanWhole?_append wholeScanned ends,
    scanFraction?_append fractionScanned ends,
    scanExponent?_append exponentScanned ends]

/-- Reading a number stops where the text cannot go on with it. -/
theorem scanNumber?_append (scanned : scanNumber? text = some (read, after))
    (ends : EndsNumber rest) :
    scanNumber? (text ++ rest) = some (read, after ++ rest) := by
  obtain ⟨first, tail, rfl, -⟩ := exists_cons_of_scanNumber? scanned
  by_cases minus : first = '-'
  · subst minus
    rw [scanNumber?_minus, Option.map_eq_some_iff] at scanned
    obtain ⟨⟨unsigned, _⟩, unsignedScanned, parts⟩ := scanned
    cases parts
    rw [List.cons_append, scanNumber?_minus,
      scanUnsigned?_append unsignedScanned ends, Option.map_some]
  · rw [scanNumber?_cons minus] at scanned
    rw [List.cons_append, scanNumber?_cons minus, ← List.cons_append]
    exact scanUnsigned?_append scanned ends

end Scanning

theorem isNumber_of_digits {literal : List Char}
    (digits : ∀ character ∈ literal, character.isDigit)
    (nonempty : literal ≠ [])
    (leading : literal.length = 1 ∨ literal.head? ≠ some '0') :
    IsNumber literal := by
  obtain ⟨first, tail, rfl⟩ := List.exists_cons_of_ne_nil nonempty
  have unsigned : first ≠ '-' := by
    rintro rfl
    simpa using digits '-'
  have whole : scanWhole? (first :: tail) = some (first :: tail, []) := by
    rw [scanWhole?_eq_some_iff, scanDigits?_eq_some_iff,
      List.takeWhile_eq_self_iff, List.dropWhile_eq_nil_iff]
    exact ⟨⟨digits, nonempty, digits⟩, leading⟩
  unfold IsNumber
  rw [scanNumber?_cons unsigned]
  simp [scanUnsigned?, whole, scanFraction?, scanExponent?]

/-! ## Natural numbers -/

theorem isDigit_digitCharacter {digit : Nat} (bounded : digit < 10) :
    (digitCharacter digit).isDigit = true := by
  revert digit
  decide

theorem digitNumber_digitCharacter {digit : Nat} (bounded : digit < 10) :
    digitNumber (digitCharacter digit) = digit := by
  revert digit
  decide

section Decimal

variable {number : Nat}

theorem lt_of_mem_digits {digit : Nat}
    (digitMem : digit ∈ Radix.digits 10 number) : digit < 10 := by
  rw [Radix.digits_eq_reverse (by decide), List.mem_reverse] at digitMem
  exact Nat.digits_lt_base (by decide) digitMem

theorem digits_ne_nil (nonzero : number ≠ 0) : Radix.digits 10 number ≠ [] := by
  rw [Radix.digits_eq_reverse (by decide), ne_eq, List.reverse_eq_nil_iff,
    Nat.digits_eq_nil_iff_eq_zero]
  exact nonzero

theorem naturalLiteral_of_ne_zero (nonzero : number ≠ 0) :
    naturalLiteral number = (Radix.digits 10 number).map digitCharacter :=
  if_neg nonzero

theorem naturalLiteral_ne_nil (number : Nat) : naturalLiteral number ≠ [] := by
  by_cases zero : number = 0
  · simp [zero, naturalLiteral]
  · rw [naturalLiteral_of_ne_zero zero]
    exact mt List.map_eq_nil_iff.mp (digits_ne_nil zero)

theorem isDigit_of_mem_naturalLiteral {character : Char}
    (characterMem : character ∈ naturalLiteral number) :
    character.isDigit = true := by
  by_cases zero : number = 0
  · simp only [zero, naturalLiteral, if_true,
      List.mem_singleton] at characterMem
    rw [characterMem]
    rfl
  · rw [naturalLiteral_of_ne_zero zero] at characterMem
    obtain ⟨digit, digitMem, rfl⟩ := List.mem_map.mp characterMem
    exact isDigit_digitCharacter (lt_of_mem_digits digitMem)

theorem head?_naturalLiteral_ne (nonzero : number ≠ 0) :
    (naturalLiteral number).head? ≠ some '0' := by
  obtain ⟨digit, rest, digits⟩ :=
    List.exists_cons_of_ne_nil (digits_ne_nil nonzero)
  have bounded : digit < 10 :=
    lt_of_mem_digits (digits ▸ List.mem_cons_self)
  have leading : digit ≠ 0 := by
    rintro rfl
    have noZero := @Radix.takeWhile_zero_digits 10 (by decide) number
    simp [digits] at noZero
  rw [naturalLiteral_of_ne_zero nonzero, digits, List.map_cons, List.head?_cons]
  intro zero
  have value := digitNumber_digitCharacter bounded
  rw [Option.some.inj zero] at value
  exact leading value.symm

theorem isNumber_naturalLiteral (number : Nat) :
    IsNumber (naturalLiteral number) := by
  apply isNumber_of_digits
  · exact fun _ => isDigit_of_mem_naturalLiteral
  · exact naturalLiteral_ne_nil number
  · by_cases zero : number = 0
    · exact .inl (by simp [zero, naturalLiteral])
    · exact .inr (head?_naturalLiteral_ne zero)

theorem literalNatural?_naturalLiteral (number : Nat) :
    literalNatural? (naturalLiteral number) = some number := by
  have digits : naturalLiteral number ≠ [] ∧
      (naturalLiteral number).all Char.isDigit :=
    ⟨naturalLiteral_ne_nil number,
      List.all_eq_true.mpr fun _ => isDigit_of_mem_naturalLiteral⟩
  rw [literalNatural?, if_pos digits]
  by_cases zero : number = 0
  · subst zero
    rfl
  · have values : (naturalLiteral number).map digitNumber =
        Radix.digits 10 number := by
      rw [naturalLiteral_of_ne_zero zero, List.map_map]
      conv_rhs => rw [← List.map_id (Radix.digits 10 number)]
      apply List.map_congr_left
      intro digit digitMem
      exact digitNumber_digitCharacter (lt_of_mem_digits digitMem)
    rw [values, Radix.value_digits (by decide)]

end Decimal

/-! ## Strings -/

/-- Strings as they are written between quotation marks. -/
def IsString (written : List Char) : Prop :=
  scanString? (written ++ ['"']) = some (written, [])

section Strings

variable {character : Char} {text read after : List Char}

theorem scanString?_escape (noUnit : character ≠ 'u') :
    scanString? ('\\' :: character :: text) = some (read, after) ↔
      (escapedCode? character).isSome ∧
        ∃ written, scanString? text = some (written, after) ∧
          '\\' :: character :: written = read := by
  rw [scanString?.eq_4 _ _ (by tauto)]
  simp [Option.bind_eq_some_iff, Option.isSome_iff_exists]

theorem scanString?_character (noQuote : character ≠ '"')
    (noEscape : character ≠ '\\') :
    scanString? (character :: text) = some (read, after) ↔
      32 ≤ character.toNat ∧
        ∃ written, scanString? text = some (written, after) ∧
          character :: written = read := by
  rw [scanString?.eq_5 _ _ noQuote (by tauto) (by tauto)]
  simp [Option.bind_eq_some_iff]

/-- Reading a string stops at its closing quotation mark. -/
theorem scanString?_append (scanned : scanString? text = some (read, after))
    (rest : List Char) :
    scanString? (text ++ rest) = some (read, after ++ rest) := by
  induction text using scanString?.induct generalizing read with
  | case1 => simp [scanString?] at scanned
  | case2 text =>
      simp only [scanString?, Option.some.injEq, Prod.mk.injEq] at scanned
      obtain ⟨rfl, rfl⟩ := scanned
      simp [scanString?]
  | case3 first second third fourth text ih =>
      simp only [scanString?, Option.bind_eq_bind, Option.bind_eq_some_iff,
        Prod.exists, Option.pure_def, Option.some.injEq, Prod.mk.injEq,
        List.cons_append] at scanned ⊢
      obtain ⟨unit, unitRead, written, _, textScanned, rfl, rfl⟩ := scanned
      exact ⟨unit, unitRead, written, _, ih textScanned, rfl, rfl⟩
  | case4 character text noDigits ih =>
      have noUnit : character ≠ 'u' := by
        rintro rfl
        rw [scanString?.eq_4 _ _ noDigits] at scanned
        simp [escapedCode?] at scanned
      rw [scanString?_escape noUnit] at scanned
      rw [List.cons_append, List.cons_append, scanString?_escape noUnit]
      obtain ⟨known, written, textScanned, rfl⟩ := scanned
      exact ⟨known, written, ih textScanned, rfl⟩
  | case5 character text noQuote noUnit noCode ih =>
      -- A backslash gets here only as the last character, with no string read.
      have noEscape : character ≠ '\\' := by
        rintro rfl
        cases text with
        | nil => simp [scanString?] at scanned
        | cons next text => exact noCode next text rfl rfl
      rw [scanString?_character noQuote noEscape] at scanned
      rw [List.cons_append, scanString?_character noQuote noEscape]
      obtain ⟨printable, written, textScanned, rfl⟩ := scanned
      exact ⟨printable, written, ih textScanned, rfl⟩

end Strings

theorem IsString.scanString?_quoted {written : List Char}
    (isString : IsString written) (rest : List Char) :
    scanString? (written ++ '"' :: rest) = some (written, rest) := by
  simpa using scanString?_append isString rest

/-! ## Plain text -/

/-- Text that is written in a string as it is. -/
def IsPlain (text : List Char) : Prop :=
  ∀ character ∈ text,
    character ≠ '"' ∧ character ≠ '\\' ∧ 32 ≤ character.toNat

theorem IsPlain.isString {text : List Char} (plain : IsPlain text) :
    IsString text := by
  unfold IsString
  induction text with
  | nil => rfl
  | cons first text ih =>
      obtain ⟨⟨noQuote, noEscape, printable⟩, plain⟩ :=
        List.forall_mem_cons.mp plain
      rw [List.cons_append, scanString?_character noQuote noEscape]
      exact ⟨printable, text, ih plain, rfl⟩

theorem writtenCodes?_of_isPlain {text : List Char} (plain : IsPlain text) :
    writtenCodes? text = some (text.map Char.toNat) := by
  induction text with
  | nil => rfl
  | cons first text ih =>
      obtain ⟨⟨-, noEscape, -⟩, plain⟩ := List.forall_mem_cons.mp plain
      rw [writtenCodes?.eq_4 _ _ (by tauto) (by tauto), ih plain]
      rfl

/-- The codes of characters join to the characters, as none is a surrogate. -/
theorem joinSurrogates?_toNat (text : List Char) :
    joinSurrogates? (text.map Char.toNat) = some text := by
  have noSurrogate (character : Char) :
      ¬(0xd800 ≤ character.toNat ∧ character.toNat < 0xe000) := by
    rintro ⟨lower, upper⟩
    rcases character.valid with below | ⟨above, -⟩
    · exact Nat.not_lt.mpr lower below
    · exact Nat.not_le.mpr above (Nat.lt_succ_iff.mp upper)
  induction text with
  | nil => rfl
  | cons first text ih =>
      have single := noSurrogate first
      cases text with
      | nil => simp [joinSurrogates?, single]
      | cons next text =>
          rw [List.map_cons] at ih
          rw [List.map_cons, List.map_cons, joinSurrogates?,
            if_neg (by omega), if_neg (by omega), ih]
          simp

theorem contents?_toList {name : String} (plain : IsPlain name.toList) :
    contents? name.toList = some name := by
  simp [contents?, writtenCodes?_of_isPlain plain, joinSurrogates?_toNat]

end Json

end CoinSpend
