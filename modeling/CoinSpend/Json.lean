import CoinSpend.Bytes

/-!
# JSON texts

A JSON value keeps its numbers and strings as they are written, escapes included.
Writing a value uses no blanks, and reading the result gives the value back.
-/

namespace CoinSpend

inductive Json
  | null
  | bool (value : Bool)
  | number (literal : List Char)
  | string (written : List Char)
  | array (items : List Json)
  | object (members : List (List Char × Json))

namespace Json

/-! ## Numbers -/

def digitCharacter (digit : Nat) : Char :=
  Char.ofNat (48 + digit)

def digitNumber (character : Char) : Nat :=
  character.toNat - 48

/-- A number in decimal, without leading zeros. -/
def naturalLiteral (number : Nat) : List Char :=
  if number = 0 then ['0']
  else (Radix.digits 10 number).map digitCharacter

/-- The number of a literal that consists of digits alone. -/
def literalNatural? (literal : List Char) : Option Nat :=
  if literal ≠ [] ∧ literal.all Char.isDigit then
    some (Radix.value 10 (literal.map digitNumber))
  else none

/-- The digits that a text begins with, and the rest.  There has to be one. -/
def scanDigits? (text : List Char) : Option (List Char × List Char) :=
  let digits := text.takeWhile Char.isDigit
  if digits = [] then none else some (digits, text.dropWhile Char.isDigit)

/-- The fraction that a text may begin with, and the rest. -/
def scanFraction? : List Char → Option (List Char × List Char)
  | '.' :: rest => do
      let (digits, after) ← scanDigits? rest
      return ('.' :: digits, after)
  | text => some ([], text)

/-- The sign that an exponent may begin with, and the rest. -/
def scanSign : List Char → List Char × List Char
  | '+' :: rest => (['+'], rest)
  | '-' :: rest => (['-'], rest)
  | text => ([], text)

/-- The exponent that a text may begin with, and the rest. -/
def scanExponent? : List Char → Option (List Char × List Char)
  | [] => some ([], [])
  | mark :: rest =>
      if mark = 'e' ∨ mark = 'E' then do
        let (sign, unsigned) := scanSign rest
        let (digits, after) ← scanDigits? unsigned
        return (mark :: sign ++ digits, after)
      else some ([], mark :: rest)

/-- The whole part that a text begins with, and the rest.  Only zero itself
begins with a zero. -/
def scanWhole? (text : List Char) : Option (List Char × List Char) := do
  let (digits, after) ← scanDigits? text
  guard (digits.length = 1 ∨ digits.head? ≠ some '0')
  return (digits, after)

/-- The number that a text begins with, and the rest. -/
def scanNumber? (text : List Char) : Option (List Char × List Char) := do
  let (sign, unsigned) :=
    match text with
    | '-' :: rest => (['-'], rest)
    | _ => ([], text)
  let (whole, afterWhole) ← scanWhole? unsigned
  let (fraction, afterFraction) ← scanFraction? afterWhole
  let (exponent, rest) ← scanExponent? afterFraction
  return (sign ++ whole ++ fraction ++ exponent, rest)

/-! ## Strings -/

def hexDigitNumber? (character : Char) : Option Nat :=
  let code := character.toNat
  if 48 ≤ code ∧ code ≤ 57 then some (code - 48)
  else if 97 ≤ code ∧ code ≤ 102 then some (code - 87)
  else if 65 ≤ code ∧ code ≤ 70 then some (code - 55)
  else none

/-- The number of four hexadecimal digits. -/
def unitNumber? (first second third fourth : Char) : Option Nat := do
  return Radix.value 16
    [← hexDigitNumber? first, ← hexDigitNumber? second,
      ← hexDigitNumber? third, ← hexDigitNumber? fourth]

/-- The code of the character that a backslash and one further character stand
for. -/
def escapedCode? (character : Char) : Option Nat :=
  match character with
  | '"' => some 34
  | '\\' => some 92
  | '/' => some 47
  | 'b' => some 8
  | 'f' => some 12
  | 'n' => some 10
  | 'r' => some 13
  | 't' => some 9
  | _ => none

/-- The content of a string after its opening quotation mark, and the text after
the closing one.  Escapes have to be well formed, and control characters have to
be escaped. -/
def scanString? : List Char → Option (List Char × List Char)
  | [] => none
  | '"' :: rest => some ([], rest)
  | '\\' :: 'u' :: first :: second :: third :: fourth :: rest => do
      let _ ← unitNumber? first second third fourth
      let (written, after) ← scanString? rest
      return ('\\' :: 'u' :: first :: second :: third :: fourth :: written,
        after)
  | '\\' :: character :: rest => do
      let _ ← escapedCode? character
      let (written, after) ← scanString? rest
      return ('\\' :: character :: written, after)
  | character :: rest => do
      guard (32 ≤ character.toNat)
      let (written, after) ← scanString? rest
      return (character :: written, after)

/-- The codes of a string as written: characters, and the units of escapes. -/
def writtenCodes? : List Char → Option (List Nat)
  | [] => some []
  | '\\' :: 'u' :: first :: second :: third :: fourth :: rest => do
      let unit ← unitNumber? first second third fourth
      return unit :: (← writtenCodes? rest)
  | '\\' :: character :: rest => do
      let code ← escapedCode? character
      return code :: (← writtenCodes? rest)
  | character :: rest => do
      return character.toNat :: (← writtenCodes? rest)

/-- Characters from codes.  A high surrogate and a low one after it are one
character, and neither stands alone. -/
def joinSurrogates? : List Nat → Option (List Char)
  | [] => some []
  | [code] =>
      if 0xd800 ≤ code ∧ code < 0xe000 then none else some [Char.ofNat code]
  | code :: next :: rest =>
      if 0xd800 ≤ code ∧ code < 0xdc00 then
        if 0xdc00 ≤ next ∧ next < 0xe000 then do
          let character :=
            Char.ofNat (0x10000 + (code - 0xd800) * 0x400 + (next - 0xdc00))
          return character :: (← joinSurrogates? rest)
        else none
      else if 0xdc00 ≤ code ∧ code < 0xe000 then none
      else do
        return Char.ofNat code :: (← joinSurrogates? (next :: rest))

/-- The text that a string stands for.  One with an unpaired surrogate stands for
no text. -/
def contents? (written : List Char) : Option String := do
  return String.ofList (← joinSurrogates? (← writtenCodes? written))

/-! ## Reading -/

def isBlank (character : Char) : Bool :=
  character == ' ' || character == '\n' || character == '\r' ||
    character == '\t'

def skipBlanks (text : List Char) : List Char :=
  text.dropWhile isBlank

mutual

/-- The value that a text begins with, and the rest. -/
def scanValue? : (fuel : Nat) → List Char → Option (Json × List Char)
  | 0, _ => none
  | fuel + 1, text =>
      match skipBlanks text with
      | 'n' :: 'u' :: 'l' :: 'l' :: rest => some (.null, rest)
      | 't' :: 'r' :: 'u' :: 'e' :: rest => some (.bool true, rest)
      | 'f' :: 'a' :: 'l' :: 's' :: 'e' :: rest => some (.bool false, rest)
      | '"' :: rest => do
          let (written, after) ← scanString? rest
          return (.string written, after)
      | '[' :: rest =>
          match skipBlanks rest with
          | ']' :: after => some (.array [], after)
          | items => do
              let (values, after) ← scanItems? fuel items
              return (.array values, after)
      | '\x7b' :: rest =>
          match skipBlanks rest with
          | '\x7d' :: after => some (.object [], after)
          | members => do
              let (values, after) ← scanMembers? fuel members
              return (.object values, after)
      | other => do
          let (literal, after) ← scanNumber? other
          return (.number literal, after)

/-- The items up to the end of an array, and the rest. -/
def scanItems? : (fuel : Nat) → List Char → Option (List Json × List Char)
  | 0, _ => none
  | fuel + 1, text => do
      let (value, after) ← scanValue? fuel text
      match skipBlanks after with
      | ',' :: rest =>
          let (values, done) ← scanItems? fuel rest
          return (value :: values, done)
      | ']' :: rest => return ([value], rest)
      | _ => none

/-- The members up to the end of an object, and the rest. -/
def scanMembers? :
    (fuel : Nat) → List Char → Option (List (List Char × Json) × List Char)
  | 0, _ => none
  | fuel + 1, text =>
      match skipBlanks text with
      | '"' :: rest => do
          let (key, afterKey) ← scanString? rest
          match skipBlanks afterKey with
          | ':' :: afterColon =>
              let (value, after) ← scanValue? fuel afterColon
              match skipBlanks after with
              | ',' :: more =>
                  let (values, done) ← scanMembers? fuel more
                  return ((key, value) :: values, done)
              | '\x7d' :: done => return ([(key, value)], done)
              | _ => none
          | _ => none
      | _ => none

end

/-- The value that a text consists of.  Every step but the first takes a
character, which bounds their number. -/
def ofText? (text : String) : Option Json := do
  let characters := text.toList
  let (value, rest) ← scanValue? (2 * characters.length + 1) characters
  guard (skipBlanks rest = [])
  return value

/-! ## Writing -/

mutual

/-- The characters of a value. -/
def characters : Json → List Char
  | .null => ['n', 'u', 'l', 'l']
  | .bool true => ['t', 'r', 'u', 'e']
  | .bool false => ['f', 'a', 'l', 's', 'e']
  | .number literal => literal
  | .string written => '"' :: written ++ ['"']
  | .array items => '[' :: itemCharacters items ++ [']']
  | .object members => '\x7b' :: memberCharacters members ++ ['\x7d']

def itemCharacters : List Json → List Char
  | [] => []
  | [item] => characters item
  | item :: next :: rest =>
      characters item ++ ',' :: itemCharacters (next :: rest)

def memberCharacters : List (List Char × Json) → List Char
  | [] => []
  | [(key, value)] => '"' :: key ++ '"' :: ':' :: characters value
  | (key, value) :: next :: rest =>
      '"' :: key ++ '"' :: ':' :: characters value ++
        ',' :: memberCharacters (next :: rest)

end

/-- The text of a value. -/
def toText (value : Json) : String :=
  String.ofList value.characters

/-! ## Values of a known form -/

/-- A natural number as a JSON number. -/
def ofNat (number : Nat) : Json :=
  .number (naturalLiteral number)

/-- The natural number below a bound that a value is the number of. -/
def natural? (bound : Nat) : Json → Option Nat
  | .number literal => do
      let number ← literalNatural? literal
      guard (number < bound)
      return number
  | _ => none

/-- The items of an array. -/
def items? : Json → Option (List Json)
  | .array items => some items
  | _ => none

/-- A record of named fields. -/
def record (fields : List (String × Json)) : Json :=
  .object (fields.map fun field => (field.1.toList, field.2))

/-- The values of the named fields of a record, in the order of the names.  Each
is given once, and further fields are passed over.  An array of exactly these
values is a record too. -/
def fields? (names : List String) : Json → Option (List Json)
  | .array items => if items.length = names.length then some items else none
  | .object members => do
      let keyed ← members.mapM fun member => do
        return (← contents? member.1, member.2)
      names.mapM fun name =>
        match keyed.filter (·.1 == name) with
        | [(_, value)] => some value
        | _ => none
  | _ => none

/-- The name that a value stands for: a string, or an object that gives nothing
but the name. -/
def name? : Json → Option String
  | .string written => contents? written
  | .object [(key, .null)] => contents? key
  | _ => none

end Json

end CoinSpend
