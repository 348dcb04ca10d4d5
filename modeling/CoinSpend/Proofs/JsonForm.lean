import CoinSpend.Proofs.JsonLiterals

/-!
# Values and their JSON texts

A value whose numbers and strings are well written is read back from its text.
By induction on the value it is read from every text that begins with its own,
provided that no number at its end could go on, with two steps of fuel for each
of its characters.
-/

namespace CoinSpend

namespace Json

/-- Values whose numbers and strings are well written. -/
inductive WellFormed : Json → Prop
  | null : WellFormed .null
  | bool (value : Bool) : WellFormed (.bool value)
  | number {literal : List Char} (isNumber : IsNumber literal) :
      WellFormed (.number literal)
  | string {written : List Char} (isString : IsString written) :
      WellFormed (.string written)
  | array {items : List Json} (each : ∀ item ∈ items, WellFormed item) :
      WellFormed (.array items)
  | object {members : List (List Char × Json)}
      (keys : ∀ member ∈ members, IsString member.1)
      (values : ∀ member ∈ members, WellFormed member.2) :
      WellFormed (.object members)

/-- A value that is read back from every text that begins with its own. -/
def IsReadBack (value : Json) : Prop :=
  ∀ (fuel : Nat) (rest : List Char), 2 * value.characters.length ≤ fuel →
    EndsNumber rest →
      scanValue? fuel (value.characters ++ rest) = some (value, rest)

/-! ## First characters -/

theorem skipBlanks_cons {first : Char} (visible : isBlank first = false)
    (text : List Char) : skipBlanks (first :: text) = first :: text := by
  simp [skipBlanks, visible]

theorem isBlank_of_starts {first : Char}
    (starts : first = '-' ∨ first.isDigit) : isBlank first = false := by
  by_contra blank
  simp only [isBlank, Bool.not_eq_false, Bool.or_eq_true, beq_iff_eq] at blank
  rcases blank with ((rfl | rfl) | rfl) | rfl <;> simp at starts

section WellFormedValues

variable {value : Json}

/-- No value begins with a blank or with the end of an array. -/
theorem WellFormed.exists_cons (wellFormed : value.WellFormed) :
    ∃ first tail, value.characters = first :: tail ∧
      isBlank first = false ∧ first ≠ ']' := by
  cases wellFormed with
  | null => exact ⟨_, _, rfl, by decide⟩
  | bool value => cases value <;> exact ⟨_, _, rfl, by decide⟩
  | number isNumber =>
      obtain ⟨first, tail, rfl, starts⟩ := exists_cons_of_scanNumber? isNumber
      refine ⟨first, tail, rfl, isBlank_of_starts starts, ?_⟩
      rintro rfl
      simp at starts
  | string isString => exact ⟨_, _, rfl, by decide⟩
  | array each => exact ⟨_, _, rfl, by decide⟩
  | object keys values => exact ⟨_, _, rfl, by decide⟩

/-- There is a character, so there is fuel for a first step. -/
theorem WellFormed.isReadBack_of_succ (wellFormed : value.WellFormed)
    (scans : ∀ (fuel : Nat) (rest : List Char),
      2 * value.characters.length ≤ fuel + 1 → EndsNumber rest →
        scanValue? (fuel + 1) (value.characters ++ rest) = some (value, rest)) :
    value.IsReadBack := by
  intro fuel rest enough ends
  cases fuel with
  | zero =>
      obtain ⟨first, tail, starts, -⟩ := wellFormed.exists_cons
      simp [starts] at enough
  | succ fuel => exact scans fuel rest enough ends

end WellFormedValues

theorem scanValue?_of_scanNumber? {text literal rest : List Char}
    (scanned : scanNumber? text = some (literal, rest)) (fuel : Nat) :
    scanValue? (fuel + 1) text = some (.number literal, rest) := by
  obtain ⟨first, tail, rfl, starts⟩ := exists_cons_of_scanNumber? scanned
  unfold scanValue?
  rw [skipBlanks_cons (isBlank_of_starts starts)]
  split
  -- The other values begin with neither a sign nor a digit.
  any_goals
    rename_i otherStarts
    cases otherStarts
    simp at starts
  simp [scanned]

/-! ## Lists of items and members -/

theorem exists_cons_itemCharacters {item : Json} (wellFormed : item.WellFormed)
    (items : List Json) :
    ∃ first tail, itemCharacters (item :: items) = first :: tail ∧
      isBlank first = false ∧ first ≠ ']' := by
  obtain ⟨first, tail, starts, visible⟩ := wellFormed.exists_cons
  cases items with
  | nil => exact ⟨first, tail, by rw [itemCharacters, starts], visible⟩
  | cons next items =>
      exact ⟨first, _, by rw [itemCharacters, starts, List.cons_append],
        visible⟩

theorem exists_cons_memberCharacters (member : List Char × Json)
    (members : List (List Char × Json)) :
    ∃ tail, memberCharacters (member :: members) = '"' :: tail := by
  cases members with
  | nil => exact ⟨_, rfl⟩
  | cons next members => exact ⟨_, rfl⟩

theorem scanItems?_itemCharacters {items : List Json} (nonempty : items ≠ [])
    (readBack : ∀ item ∈ items, item.IsReadBack) {fuel : Nat}
    (enough : 2 * (itemCharacters items).length < fuel) (rest : List Char) :
    scanItems? fuel (itemCharacters items ++ ']' :: rest) =
      some (items, rest) := by
  induction items generalizing fuel with
  | nil => exact absurd rfl nonempty
  | cons item items ih =>
      obtain ⟨itemReadBack, itemsReadBack⟩ := List.forall_mem_cons.mp readBack
      cases fuel with
      | zero => exact absurd enough (Nat.not_lt_zero _)
      | succ fuel =>
          cases items with
          | nil =>
              rw [itemCharacters] at enough ⊢
              have itemRead := itemReadBack fuel (']' :: rest) (by omega)
                (by simp [EndsNumber])
              simp [scanItems?, itemRead, skipBlanks_cons, isBlank]
          | cons next items =>
              rw [itemCharacters, List.length_append,
                List.length_cons] at enough
              have itemRead := itemReadBack fuel
                (',' :: (itemCharacters (next :: items) ++ ']' :: rest))
                (by omega) (by simp [EndsNumber])
              have itemsRead := ih (List.cons_ne_nil _ _) itemsReadBack
                (show 2 * (itemCharacters (next :: items)).length < fuel by
                  omega)
              rw [itemCharacters, List.append_assoc, List.cons_append]
              simp [scanItems?, itemRead, itemsRead, skipBlanks_cons, isBlank]

theorem scanMembers?_memberCharacters {members : List (List Char × Json)}
    (nonempty : members ≠ []) (keys : ∀ member ∈ members, IsString member.1)
    (readBack : ∀ member ∈ members, member.2.IsReadBack) {fuel : Nat}
    (enough : 2 * (memberCharacters members).length < fuel)
    (rest : List Char) :
    scanMembers? fuel (memberCharacters members ++ '\x7d' :: rest) =
      some (members, rest) := by
  induction members generalizing fuel with
  | nil => exact absurd rfl nonempty
  | cons member members ih =>
      obtain ⟨key, value⟩ := member
      obtain ⟨keyString, otherKeys⟩ := List.forall_mem_cons.mp keys
      obtain ⟨valueReadBack, otherReadBack⟩ := List.forall_mem_cons.mp readBack
      replace valueReadBack : value.IsReadBack := valueReadBack
      cases fuel with
      | zero => exact absurd enough (Nat.not_lt_zero _)
      | succ fuel =>
          cases members with
          | nil =>
              simp only [memberCharacters, List.length_append,
                List.length_cons] at enough
              have valueRead := valueReadBack fuel ('\x7d' :: rest) (by omega)
                (by simp [EndsNumber])
              simp [memberCharacters, scanMembers?, valueRead,
                keyString.scanString?_quoted, skipBlanks_cons, isBlank]
          | cons next members =>
              simp only [memberCharacters, List.length_append,
                List.length_cons] at enough
              have valueRead := valueReadBack fuel
                (',' :: (memberCharacters (next :: members) ++ '\x7d' :: rest))
                (by omega) (by simp [EndsNumber])
              have membersRead := ih (List.cons_ne_nil _ _) otherKeys
                otherReadBack
                (show 2 * (memberCharacters (next :: members)).length < fuel by
                  omega)
              simp [memberCharacters, scanMembers?, valueRead, membersRead,
                keyString.scanString?_quoted, skipBlanks_cons, isBlank]

/-! ## Values -/

theorem scanValue?_array {items : List Json}
    (each : ∀ item ∈ items, item.WellFormed)
    (readBack : ∀ item ∈ items, item.IsReadBack) {fuel : Nat}
    (enough : 2 * (array items).characters.length ≤ fuel + 1)
    (rest : List Char) :
    scanValue? (fuel + 1) ((array items).characters ++ rest) =
      some (.array items, rest) := by
  cases items with
  | nil =>
      simp [characters, itemCharacters, scanValue?, skipBlanks_cons, isBlank]
  | cons item items =>
      simp only [characters, List.length_append, List.length_cons] at enough
      have itemsRead := scanItems?_itemCharacters (List.cons_ne_nil _ _)
        readBack
        (show 2 * (itemCharacters (item :: items)).length < fuel by omega) rest
      obtain ⟨first, tail, starts, visible, noEnd⟩ :=
        exists_cons_itemCharacters (each item List.mem_cons_self) items
      rw [starts, List.cons_append] at itemsRead
      have bracketVisible : isBlank '[' = false := rfl
      simp [characters, starts, scanValue?, skipBlanks_cons, bracketVisible,
        visible, noEnd, itemsRead]

theorem scanValue?_object {members : List (List Char × Json)}
    (keys : ∀ member ∈ members, IsString member.1)
    (readBack : ∀ member ∈ members, member.2.IsReadBack) {fuel : Nat}
    (enough : 2 * (object members).characters.length ≤ fuel + 1)
    (rest : List Char) :
    scanValue? (fuel + 1) ((object members).characters ++ rest) =
      some (.object members, rest) := by
  cases members with
  | nil =>
      simp [characters, memberCharacters, scanValue?, skipBlanks_cons, isBlank]
  | cons member members =>
      simp only [characters, List.length_append, List.length_cons] at enough
      have membersRead := scanMembers?_memberCharacters (List.cons_ne_nil _ _)
        keys readBack
        (show 2 * (memberCharacters (member :: members)).length < fuel by
          omega) rest
      obtain ⟨tail, starts⟩ := exists_cons_memberCharacters member members
      rw [starts, List.cons_append] at membersRead
      simp [characters, starts, scanValue?, skipBlanks_cons, isBlank,
        membersRead]

theorem WellFormed.isReadBack {value : Json} (wellFormed : value.WellFormed) :
    value.IsReadBack := by
  induction wellFormed with
  | null =>
      refine WellFormed.null.isReadBack_of_succ fun fuel rest _ _ => ?_
      simp [characters, scanValue?, skipBlanks_cons, isBlank]
  | bool value =>
      refine (WellFormed.bool value).isReadBack_of_succ fun fuel rest _ _ => ?_
      cases value <;> simp [characters, scanValue?, skipBlanks_cons, isBlank]
  | number isNumber =>
      refine (WellFormed.number isNumber).isReadBack_of_succ
        fun fuel rest _ ends => ?_
      exact scanValue?_of_scanNumber? (scanNumber?_append isNumber ends) fuel
  | string isString =>
      refine (WellFormed.string isString).isReadBack_of_succ
        fun fuel rest _ _ => ?_
      simp [characters, scanValue?, isString.scanString?_quoted,
        skipBlanks_cons, isBlank]
  | array each ih =>
      exact (WellFormed.array each).isReadBack_of_succ
        fun fuel rest enough _ => scanValue?_array each ih enough rest
  | object keys values ih =>
      exact (WellFormed.object keys values).isReadBack_of_succ
        fun fuel rest enough _ => scanValue?_object keys ih enough rest

/-- Reading the text of a value gives the value back. -/
theorem WellFormed.ofText?_toText {value : Json}
    (wellFormed : value.WellFormed) : ofText? value.toText = some value := by
  have readBack := wellFormed.isReadBack (2 * value.characters.length + 1) []
    (Nat.le_succ _) trivial
  rw [List.append_nil] at readBack
  unfold ofText? toText
  simp only
  rw [String.toList_ofList, readBack]
  rfl

end Json

end CoinSpend
