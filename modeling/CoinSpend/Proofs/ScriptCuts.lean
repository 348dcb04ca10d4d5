import CoinSpend.Proofs.CutReading
import CoinSpend.Proofs.ScriptForms

/-!
# Joined and cut scripts

A script that is joined to whole elements parses as it does alone, whether this
succeeds or fails.  A script that is cut short parses if it is cut between two
elements.  Otherwise it is cut in a push, and whether the length or the data of
the push is incomplete decides how parsing fails.
-/

namespace CoinSpend

namespace Reading

variable {α β : Type}

/-- Cursors with the same unread bytes give the same outcome and leave the same
bytes unread. -/
def IgnoresPosition (reading : Reading α) : Prop :=
  ∀ first second : Cursor, first.unread = second.unread →
    ∃ outcome firstNext secondNext,
      reading.runFrom first = (outcome, firstNext) ∧
        reading.runFrom second = (outcome, secondNext) ∧
        firstNext.unread = secondNext.unread

namespace IgnoresPosition

variable {reading : Reading α}

theorem pure (value : α) : (Pure.pure value : Reading α).IgnoresPosition :=
  fun first second same => ⟨.ok value, first, second, rfl, rfl, same⟩

theorem bind {rest : α → Reading β} (part : reading.IgnoresPosition)
    (restIgnores : ∀ value, (rest value).IgnoresPosition) :
    (reading >>= rest).IgnoresPosition := by
  intro first second same
  obtain ⟨outcome, firstNext, secondNext, firstReads, secondReads, alike⟩ :=
    part first second same
  rw [runFrom_bind, runFrom_bind, firstReads, secondReads]
  cases outcome with
  | error error => exact ⟨_, _, _, rfl, rfl, alike⟩
  | ok value => exact restIgnores value _ _ alike

theorem adapt {change : Error → Error} (ignores : reading.IgnoresPosition) :
    IgnoresPosition (ExceptT.adapt change reading) := by
  intro first second same
  obtain ⟨outcome, firstNext, secondNext, firstReads, secondReads, alike⟩ :=
    ignores first second same
  rw [runFrom_adapt, runFrom_adapt, firstReads, secondReads]
  exact ⟨_, _, _, rfl, rfl, alike⟩

end IgnoresPosition

end Reading

theorem readBytes_ignoresPosition (count : Nat) :
    (readBytes count).IgnoresPosition := by
  intro first second same
  rw [runFrom_readBytes, runFrom_readBytes, same]
  split
  · exact ⟨_, _, _, rfl, rfl, rfl⟩
  · exact ⟨_, _, _, rfl, rfl, same⟩

theorem readNumber_ignoresPosition (width : Nat) :
    (readNumber width).IgnoresPosition :=
  (readBytes_ignoresPosition width).bind fun _ => .pure _

theorem PushForm.readLength_ignoresPosition (form : PushForm) :
    form.readLength.IgnoresPosition := by
  cases form with
  | direct length => exact .pure length
  | field width => exact readNumber_ignoresPosition width

namespace ScriptElement

theorem read_ignoresPosition : read.IgnoresPosition := by
  have readsByte : readUInt8.IgnoresPosition :=
    (readNumber_ignoresPosition 1).bind fun _ => .pure _
  refine readsByte.bind fun byte => ?_
  cases PushForm.ofByte? byte with
  | none => exact .pure _
  | some form =>
      exact form.readLength_ignoresPosition.bind fun length =>
        (readBytes_ignoresPosition length).adapt.bind fun _ => .pure _

theorem runFrom_read_of_push {byte : UInt8} {form : PushForm}
    (formEq : PushForm.ofByte? byte = some form) (position : Nat)
    (rest : Bytes) :
    read.runFrom ⟨position, byte :: rest⟩ =
      (do
        let length ← form.readLength
        let data ← ExceptT.adapt (fun _ => .script (.pushPastEnd length))
          (readBytes length)
        return push data : Reading ScriptElement).runFrom
        ⟨position + 1, rest⟩ := by
  have readsByte : readUInt8.runFrom ⟨position, byte :: rest⟩ =
      (.ok byte, ⟨position + 1, rest⟩) :=
    (readUInt8_exact _ _ _).mpr ⟨trivial, rfl, rfl⟩
  rw [read, Reading.runFrom_bind, readsByte]
  simp only [formEq]

/-- A push whose length field is cut short is a truncated read. -/
theorem runFrom_read_of_cut_field {byte : UInt8} {form : PushForm}
    (formEq : PushForm.ofByte? byte = some form) (position : Nat)
    {length : Nat} {present : Bytes}
    (cut : IsCut present (form.lengthField length)) :
    read.runFrom ⟨position, byte :: present⟩ =
      (.error (.truncated (form.lengthField length).length present.length),
        ⟨position + 1, present⟩) := by
  rw [runFrom_read_of_push formEq]
  cases form with
  | direct announced => exact absurd cut (not_isCut_nil present)
  | field width =>
      have short := cut.length_lt
      simp only [PushForm.lengthField, littleEndian_length] at short ⊢
      have fails := (readNumber_needs width ⟨position + 1, present⟩ _ _).mpr
        ⟨short, rfl, rfl⟩
      rw [Reading.runFrom_bind, PushForm.readLength, fails]

/-- A push whose data is cut short is a fault of the script. -/
theorem runFrom_read_of_cut_data {byte : UInt8} {form : PushForm}
    (formEq : PushForm.ofByte? byte = some form) (position : Nat)
    {data present : Bytes} (announces : form.Announces data.length)
    (cut : IsCut present data) :
    read.runFrom
        ⟨position, byte :: (form.lengthField data.length ++ present)⟩ =
      (.error (.script (.pushPastEnd data.length)),
        ⟨position + 1 + (form.lengthField data.length).length, present⟩) := by
  rw [runFrom_read_of_push formEq, Reading.runFrom_bind,
    form.readLength_exact.runFrom_toBytes announces]
  simp only [Reading.runFrom_bind, Reading.runFrom_adapt, runFrom_readBytes,
    if_neg (Nat.not_le.mpr cut.length_lt)]
  rfl

end ScriptElement

namespace Script

open ScriptElement

theorem elementsFrom_congr {first second : Cursor} {fuel otherFuel : Nat}
    (same : first.unread = second.unread)
    (enough : first.unread.length ≤ fuel)
    (otherEnough : second.unread.length ≤ otherFuel) :
    elementsFrom fuel first = elementsFrom otherFuel second := by
  induction fuel generalizing first second otherFuel with
  | zero =>
      have finished : first.unread = [] :=
        List.eq_nil_of_length_eq_zero (by omega)
      cases otherFuel with
      | zero => rfl
      | succ otherFuel =>
          rw [elementsFrom, elementsFrom, if_pos (same ▸ finished)]
  | succ fuel ih =>
      by_cases finished : first.unread = []
      · cases otherFuel with
        | zero => rw [elementsFrom, elementsFrom, if_pos finished]
        | succ otherFuel =>
            rw [elementsFrom, elementsFrom, if_pos finished,
              if_pos (same ▸ finished)]
      · have someBytes := List.length_pos_iff.mpr finished
        rw [same] at someBytes
        obtain ⟨otherFuel, rfl⟩ : ∃ fuel, otherFuel = fuel + 1 :=
          Nat.exists_eq_add_one.mpr (by omega)
        obtain ⟨outcome, next, otherNext, reads, otherReads, unreadEq⟩ :=
          read_ignoresPosition first second same
        rw [elementsFrom, elementsFrom, if_neg finished,
          if_neg (same ▸ finished), reads, otherReads]
        cases outcome with
        | error error => rfl
        | ok element =>
            obtain ⟨bytes, written, passes, -⟩ := read_eq_ok_iff.mp reads
            have nonempty := List.length_pos_iff.mpr written.ne_nil
            rw [same] at passes
            rw [same, passes, List.length_append] at enough
            rw [passes, List.length_append, unreadEq] at otherEnough
            have shorter : next.unread.length ≤ fuel := by omega
            have otherShorter : otherNext.unread.length ≤ otherFuel := by omega
            simp only [ih unreadEq shorter otherShorter]

theorem elements_of_read {bytes : Bytes} (nonempty : bytes ≠ []) :
    (mk bytes).elements =
      match read.runFrom (.start bytes) with
      | (.error error, _) => .error error
      | (.ok element, next) =>
          (mk next.unread).elements.map (element :: ·) := by
  have someBytes := List.length_pos_iff.mpr nonempty
  obtain ⟨fuel, fuelEq⟩ : ∃ fuel, bytes.length = fuel + 1 :=
    Nat.exists_eq_add_one.mpr someBytes
  have unfinished : ¬ (Cursor.start bytes).unread = [] := nonempty
  rw [elements, size, fuelEq, elementsFrom, if_neg unfinished]
  rcases reads : read.runFrom (.start bytes) with ⟨outcome, next⟩
  rw [reads]
  cases outcome with
  | error error => rfl
  | ok element =>
      obtain ⟨consumed, written, passes, -⟩ := read_eq_ok_iff.mp reads
      have positive := List.length_pos_iff.mpr written.ne_nil
      change bytes = _ at passes
      rw [passes, List.length_append] at fuelEq
      have shorter : next.unread.length ≤ fuel := by omega
      have alike : elementsFrom fuel next = (mk next.unread).elements :=
        elementsFrom_congr rfl shorter (Nat.le_refl _)
      simp only [alike]
      cases (mk next.unread).elements <;> rfl

theorem elements_written_append {element : ScriptElement} {bytes : Bytes}
    (written : element.Written bytes) (rest : Bytes) :
    (mk (bytes ++ rest)).elements =
      (mk rest).elements.map (element :: ·) := by
  have nonempty := List.append_ne_nil_of_left_ne_nil written.ne_nil rest
  have reads : read.runFrom (.start (bytes ++ rest)) =
      (.ok element, ⟨0 + bytes.length, rest⟩) :=
    read_eq_ok_iff.mpr ⟨bytes, written, rfl, rfl⟩
  rw [elements_of_read nonempty, reads]

/-- What follows whole elements is parsed as if it stood alone. -/
theorem elements_append {front : Bytes} {elements : List ScriptElement}
    (written : AllWritten elements front) (back : Bytes) :
    (mk (front ++ back)).elements =
      (mk back).elements.map (elements ++ ·) := by
  induction elements generalizing front with
  | nil =>
      cases written
      rw [List.nil_append]
      cases (mk back).elements <;> rfl
  | cons element elements ih =>
      obtain ⟨first, rest, firstWritten, restWritten, rfl⟩ := written
      rw [List.append_assoc, elements_written_append firstWritten,
        ih restWritten]
      cases (mk back).elements <;> rfl

end Script

/-- Where a script pushes data: the bytes in front of the push, its first byte
with the form that it begins, and the data. -/
structure PushPlace where
  front : Bytes
  first : UInt8
  form : PushForm
  data : Bytes

namespace PushPlace

/-- The bytes between the first byte of the push and its data. -/
def lengthField (place : PushPlace) : Bytes :=
  place.form.lengthField place.data.length

/-- The bytes of the push. -/
def pushBytes (place : PushPlace) : Bytes :=
  place.first :: (place.lengthField ++ place.data)

/-- The push stands in the script, with whole elements in front of it. -/
structure In (place : PushPlace) (bytes : Bytes) : Prop where
  front_written : ∃ elements, ScriptElement.AllWritten elements place.front
  formEq : PushForm.ofByte? place.first = some place.form
  announces : place.form.Announces place.data.length
  bytes_eq : ∃ back, bytes = place.front ++ (place.pushBytes ++ back)

/-- The script is cut after the given part of the length field. -/
def CutsLength (place : PushPlace) (cut present : Bytes) : Prop :=
  cut = place.front ++ place.first :: present ∧
    IsCut present place.lengthField

/-- The script is cut after the given part of the data. -/
def CutsData (place : PushPlace) (cut present : Bytes) : Prop :=
  cut = place.front ++ place.first :: (place.lengthField ++ present) ∧
    IsCut present place.data

/-- The same push after one more element. -/
def behind (place : PushPlace) (bytes : Bytes) : PushPlace :=
  { place with front := bytes ++ place.front }

variable {place : PushPlace} {bytes cut present : Bytes}

theorem In.behind {element : ScriptElement} {written rest : Bytes}
    (inRest : place.In rest) (isWritten : element.Written written) :
    (place.behind written).In (written ++ rest) := by
  obtain ⟨⟨elements, frontWritten⟩, formEq, announces, back, rfl⟩ := inRest
  refine ⟨⟨element :: elements, written, place.front, isWritten, frontWritten,
    rfl⟩, formEq, announces, back, ?_⟩
  exact (List.append_assoc _ _ _).symm

theorem CutsLength.behind (cutsLength : place.CutsLength cut present) :
    (place.behind bytes).CutsLength (bytes ++ cut) present := by
  obtain ⟨rfl, isCut⟩ := cutsLength
  exact ⟨(List.append_assoc _ _ _).symm, isCut⟩

theorem CutsData.behind (cutsData : place.CutsData cut present) :
    (place.behind bytes).CutsData (bytes ++ cut) present := by
  obtain ⟨rfl, isCut⟩ := cutsData
  exact ⟨(List.append_assoc _ _ _).symm, isCut⟩

theorem In.elements_of_cutsLength {whole : Bytes} (inWhole : place.In whole)
    (cutsLength : place.CutsLength cut present) :
    (Script.mk cut).elements =
      .error (.truncated place.lengthField.length present.length) := by
  obtain ⟨elements, frontWritten⟩ := inWhole.front_written
  obtain ⟨rfl, isCut⟩ := cutsLength
  rw [Script.elements_append frontWritten,
    Script.elements_of_read (List.cons_ne_nil _ _), Cursor.start,
    ScriptElement.runFrom_read_of_cut_field inWhole.formEq 0 isCut]
  rfl

theorem In.elements_of_cutsData {whole : Bytes} (inWhole : place.In whole)
    (cutsData : place.CutsData cut present) :
    (Script.mk cut).elements =
      .error (.script (.pushPastEnd place.data.length)) := by
  obtain ⟨elements, frontWritten⟩ := inWhole.front_written
  obtain ⟨rfl, isCut⟩ := cutsData
  rw [Script.elements_append frontWritten,
    Script.elements_of_read (List.cons_ne_nil _ _), Cursor.start, lengthField,
    ScriptElement.runFrom_read_of_cut_data inWhole.formEq 0 inWhole.announces
      isCut]
  rfl

end PushPlace

namespace ScriptElement

/-- A cut falls in front of an element, in its length field or in its data. -/
theorem Written.cut_cases {element : ScriptElement} {bytes cut : Bytes}
    (written : element.Written bytes) (isCut : IsCut cut bytes)
    (rest : Bytes) :
    cut = [] ∨ ∃ (place : PushPlace) (present : Bytes),
      place.In (bytes ++ rest) ∧
        (place.CutsLength cut present ∨ place.CutsData cut present) := by
  cases cut with
  | nil => exact .inl rfl
  | cons first present =>
      right
      obtain ⟨missing, nonempty, bytesEq⟩ := isCut
      cases element with
      | op code =>
          -- An operation is one byte, which leaves nothing to cut off.
          obtain ⟨byte, -, -, rfl⟩ := written
          have tails := (List.cons.inj bytesEq).2
          exact absurd (List.append_eq_nil_iff.mp tails.symm).2 nonempty
      | push data =>
          obtain ⟨byte, form, formEq, announces, rfl⟩ := written
          obtain ⟨rfl, tails⟩ := List.cons.inj bytesEq
          let place : PushPlace := ⟨[], byte, form, data⟩
          have inWhole : place.In
              (byte :: (form.lengthField data.length ++ data) ++ rest) :=
            ⟨⟨[], rfl⟩, formEq, announces, rest, rfl⟩
          have tailCut : IsCut present (place.lengthField ++ place.data) :=
            ⟨missing, nonempty, tails⟩
          rcases isCut_append_iff.mp tailCut with
            inField | ⟨dataPresent, rfl, inData⟩
          · exact ⟨place, present, inWhole, .inl ⟨rfl, inField⟩⟩
          · exact ⟨place, dataPresent, inWhole, .inr ⟨rfl, inData⟩⟩

/-- A cut of a script falls between two of its elements or in a push. -/
theorem AllWritten.cut_cases {elements : List ScriptElement}
    {whole cut : Bytes} (written : AllWritten elements whole)
    (isCut : IsCut cut whole) :
    (∃ found rest missing, elements = found ++ rest ∧
        whole = cut ++ missing ∧ AllWritten found cut ∧
        AllWritten rest missing) ∨
      ∃ (place : PushPlace) (present : Bytes), place.In whole ∧
        (place.CutsLength cut present ∨ place.CutsData cut present) := by
  induction elements generalizing whole cut with
  | nil =>
      cases written
      exact absurd isCut (not_isCut_nil cut)
  | cons element elements ih =>
      obtain ⟨first, more, firstWritten, moreWritten, rfl⟩ := written
      rcases isCut_append_iff.mp isCut with inFirst | ⟨later, rfl, inMore⟩
      · rcases firstWritten.cut_cases inFirst more with rfl | inPush
        · exact .inl ⟨[], element :: elements, first ++ more, rfl, rfl, rfl,
            first, more, firstWritten, moreWritten, rfl⟩
        · exact .inr inPush
      · rcases ih moreWritten inMore with
          ⟨found, rest, missing, rfl, rfl, foundWritten, restWritten⟩ |
          ⟨place, present, inRest, cutsLength | cutsData⟩
        · exact .inl ⟨element :: found, rest, missing, rfl,
            (List.append_assoc _ _ _).symm,
            ⟨first, later, firstWritten, foundWritten, rfl⟩, restWritten⟩
        · exact .inr ⟨place.behind first, present,
            inRest.behind firstWritten, .inl cutsLength.behind⟩
        · exact .inr ⟨place.behind first, present,
            inRest.behind firstWritten, .inr cutsData.behind⟩

end ScriptElement

namespace Script

open ScriptElement

variable {elements : List ScriptElement} {whole cut : Bytes}

theorem elements_cut_eq_ok_iff (parsed : (mk whole).elements = .ok elements)
    (isCut : IsCut cut whole) {found : List ScriptElement} :
    (mk cut).elements = .ok found ↔
      ∃ rest missing, elements = found ++ rest ∧ whole = cut ++ missing ∧
        AllWritten found cut ∧ AllWritten rest missing := by
  constructor
  · intro parsedCut
    rcases (elements_eq_ok_iff.mp parsed).cut_cases isCut with
      ⟨begun, rest, missing, split, joined, begunWritten, restWritten⟩ |
      ⟨place, present, inWhole, cutsLength | cutsData⟩
    · have same : begun = found := Except.ok.inj
        ((elements_eq_ok_iff.mpr begunWritten).symm.trans parsedCut)
      subst same
      exact ⟨rest, missing, split, joined, begunWritten, restWritten⟩
    · rw [inWhole.elements_of_cutsLength cutsLength] at parsedCut
      contradiction
    · rw [inWhole.elements_of_cutsData cutsData] at parsedCut
      contradiction
  · rintro ⟨rest, missing, -, -, foundWritten, -⟩
    exact elements_eq_ok_iff.mpr foundWritten

theorem elements_cut_eq_error_iff
    (parsed : (mk whole).elements = .ok elements) (isCut : IsCut cut whole)
    {error : Error} :
    (mk cut).elements = .error error ↔
      ∃ (place : PushPlace) (present : Bytes), place.In whole ∧
        (place.CutsLength cut present ∧
            error = .truncated place.lengthField.length present.length ∨
          place.CutsData cut present ∧
            error = .script (.pushPastEnd place.data.length)) := by
  constructor
  · intro refused
    rcases (elements_eq_ok_iff.mp parsed).cut_cases isCut with
      ⟨begun, rest, missing, -, -, begunWritten, -⟩ |
      ⟨place, present, inWhole, cutsLength | cutsData⟩
    · rw [elements_eq_ok_iff.mpr begunWritten] at refused
      contradiction
    · rw [inWhole.elements_of_cutsLength cutsLength] at refused
      exact ⟨place, present, inWhole,
        .inl ⟨cutsLength, (Except.error.inj refused).symm⟩⟩
    · rw [inWhole.elements_of_cutsData cutsData] at refused
      exact ⟨place, present, inWhole,
        .inr ⟨cutsData, (Except.error.inj refused).symm⟩⟩
  · rintro ⟨place, present, inWhole, ⟨cutsLength, rfl⟩ | ⟨cutsData, rfl⟩⟩
    · exact inWhole.elements_of_cutsLength cutsLength
    · exact inWhole.elements_of_cutsData cutsData

/-- Parsing whole elements and then any bytes gives what the bytes give alone.
Parsing what is left of a script after a cut gives the elements before it if it
falls between two elements, and otherwise fails as the place of the cut in a
push requires. -/
theorem elements_joined_and_cut :
    (∀ front back elements, (mk front).elements = .ok elements →
      (∀ more, (mk back).elements = .ok more →
          (mk (front ++ back)).elements = .ok (elements ++ more)) ∧
        ∀ error, (mk back).elements = .error error →
          (mk (front ++ back)).elements = .error error) ∧
      ∀ whole elements, (mk whole).elements = .ok elements →
        ∀ cut, IsCut cut whole →
          (∀ found, (mk cut).elements = .ok found ↔
              ∃ rest missing, elements = found ++ rest ∧
                whole = cut ++ missing ∧ AllWritten found cut ∧
                AllWritten rest missing) ∧
            ∀ error, (mk cut).elements = .error error ↔
              ∃ (place : PushPlace) (present : Bytes), place.In whole ∧
                (place.CutsLength cut present ∧
                    error = .truncated place.lengthField.length
                      present.length ∨
                  place.CutsData cut present ∧
                    error = .script (.pushPastEnd place.data.length)) := by
  refine ⟨fun front back elements parsed => ?_,
    fun whole elements parsed cut isCut =>
      ⟨fun found => elements_cut_eq_ok_iff parsed isCut,
        fun error => elements_cut_eq_error_iff parsed isCut⟩⟩
  rw [elements_append (elements_eq_ok_iff.mp parsed)]
  refine ⟨fun more parsedBack => ?_, fun error refused => ?_⟩
  · rw [parsedBack]
    rfl
  · rw [refused]
    rfl

/-- A push with a wide length field between two operations, followed by a byte
too many, and cut after its data, in its length field and before its data. -/
theorem elements_joined_and_cut_of_wide_push :
    let whole : Bytes := [0x76, 0x4d, 0x02, 0x00, 0x11, 0x22, 0xac]
    let elements : List ScriptElement :=
      [.op .dup, .push [0x11, 0x22], .op .checkSig]
    (mk whole).elements = .ok elements ∧
      (mk (whole ++ [0x4c])).elements = .error (.truncated 1 0) ∧
      (∀ count, count < 7 → IsCut (whole.take count) whole) ∧
      (mk (whole.take 6)).elements = .ok (elements.take 2) ∧
      (mk (whole.take 3)).elements = .error (.truncated 2 1) ∧
      (mk (whole.take 4)).elements = .error (.script (.pushPastEnd 2)) := by
  intro whole elements
  have parsed : (mk whole).elements = .ok elements := by decide
  have cut (count : Nat) (short : count < 7) :
      IsCut (whole.take count) whole := by
    refine ⟨whole.drop count, ?_, (List.take_append_drop count whole).symm⟩
    exact List.drop_eq_nil_iff.not.mpr (Nat.not_le.mpr short)
  obtain ⟨joins, cuts⟩ := elements_joined_and_cut
  let place : PushPlace := ⟨[0x76], 0x4d, .field 2, [0x11, 0x22]⟩
  have announces : 2 < 256 ^ 2 := by decide
  have inWhole : place.In whole :=
    ⟨⟨[.op .dup], elements_eq_ok_iff.mp (by decide)⟩, rfl, announces, [0xac],
      by decide⟩
  refine ⟨parsed, (joins _ [0x4c] _ parsed).2 _ (by decide), cut, ?_, ?_, ?_⟩
  · refine ((cuts _ _ parsed _ (cut 6 (by decide))).1 _).mpr ?_
    exact ⟨[.op .checkSig], [0xac], rfl, rfl,
      elements_eq_ok_iff.mp (by decide), elements_eq_ok_iff.mp (by decide)⟩
  · refine ((cuts _ _ parsed _ (cut 3 (by decide))).2 _).mpr ?_
    exact ⟨place, [0x02], inWhole,
      .inl ⟨⟨rfl, [0x00], by decide, by decide⟩, rfl⟩⟩
  · refine ((cuts _ _ parsed _ (cut 4 (by decide))).2 _).mpr ?_
    exact ⟨place, [], inWhole,
      .inr ⟨⟨by decide, [0x11, 0x22], by decide, rfl⟩, rfl⟩⟩

end Script

end CoinSpend
