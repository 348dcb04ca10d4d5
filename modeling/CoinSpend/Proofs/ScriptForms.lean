import CoinSpend.Script
import CoinSpend.Proofs.ExactReading

/-!
# The written forms of a script

A script parses to a list of elements exactly when its bytes are written forms
of these elements, one after the other.  An operation has one written form, and
a push has one for every way to announce its length.
-/

namespace CoinSpend

namespace PushForm

/-- The lengths that a form can announce. -/
def Announces : PushForm → Nat → Prop
  | .direct length, announced => announced = length
  | .field width, announced => announced < 256 ^ width

/-- The bytes between the first byte of a push and its data. -/
def lengthField : PushForm → Nat → Bytes
  | .direct _, _ => []
  | .field width, length => littleEndian width length

theorem ofByte?_eq_none_iff {byte : UInt8} :
    ofByte? byte = none ↔ 0x4e < byte := by
  unfold ofByte?
  repeat' split
  all_goals grind

theorem ofByte?_ofNat {length : Nat} (short : length < 0x4c) :
    ofByte? (UInt8.ofNat length) = some (.direct length) := by
  have value : (UInt8.ofNat length).toNat = length :=
    UInt8.toNat_ofNat_of_lt (by change length < 256; omega)
  have low : UInt8.ofNat length < 0x4c := by
    rw [UInt8.lt_iff_toNat_lt, value]
    exact short
  rw [ofByte?, if_pos low, value]

/-- The four ways to begin a push. -/
theorem cases_of_ofByte? {byte : UInt8} {form : PushForm}
    (formEq : ofByte? byte = some form) :
    byte < 0x4c ∧ form = .direct byte.toNat ∨ byte = 0x4c ∧ form = .field 1 ∨
      byte = 0x4d ∧ form = .field 2 ∨ byte = 0x4e ∧ form = .field 4 := by
  unfold ofByte? at formEq
  repeat' split at formEq
  all_goals simp_all

theorem lt_of_announces {byte : UInt8} {form : PushForm} {length : Nat}
    (formEq : ofByte? byte = some form) (announces : form.Announces length) :
    length < 2 ^ 32 := by
  have byteBound := byte.toNat_lt
  rcases cases_of_ofByte? formEq with
    ⟨-, rfl⟩ | ⟨-, rfl⟩ | ⟨-, rfl⟩ | ⟨-, rfl⟩
  all_goals
    unfold Announces at announces
    omega

theorem length_lengthField_le {byte : UInt8} {form : PushForm}
    (formEq : ofByte? byte = some form) (length : Nat) :
    (form.lengthField length).length ≤ 4 := by
  rcases cases_of_ofByte? formEq with
    ⟨-, rfl⟩ | ⟨-, rfl⟩ | ⟨-, rfl⟩ | ⟨-, rfl⟩
  all_goals simp [lengthField]

theorem readLength_exact (form : PushForm) :
    form.readLength.Exact form.lengthField form.Announces := by
  cases form with
  | direct length => exact Reading.Exact.pure fun _ => Iff.rfl
  | field width => exact readNumber_exact width

end PushForm

/-- A push is written in one of the forms.  The widest field is also used for
the lengths that it cannot hold. -/
theorem exists_form_pushHeader (length : Nat) :
    ∃ byte form, PushForm.ofByte? byte = some form ∧
      (form.Announces length ↔ length < 2 ^ 32) ∧
      pushHeader length = byte :: form.lengthField length := by
  unfold pushHeader
  split
  · rename_i short
    refine ⟨_, .direct length, PushForm.ofByte?_ofNat short, ?_, rfl⟩
    exact iff_of_true rfl (by omega)
  · split
    · exact ⟨0x4c, .field 1, rfl, by change _ < 256 ^ 1 ↔ _; omega, rfl⟩
    · split
      · exact ⟨0x4d, .field 2, rfl, by change _ < 256 ^ 2 ↔ _; omega, rfl⟩
      · exact ⟨0x4e, .field 4, rfl, Iff.rfl, rfl⟩

namespace Reading

variable {α : Type} {reading : Reading α} {change : Error → Error}

theorem runFrom_adapt (cursor : Cursor) :
    runFrom (ExceptT.adapt change reading) cursor =
      ((reading.runFrom cursor).1.mapError change,
        (reading.runFrom cursor).2) := by
  unfold runFrom
  rw [ExceptT.run_adapt]
  rfl

/-- Changing the errors of a reading does not change what it accepts. -/
theorem Exact.adapt {toBytes : α → Bytes} {Valid : α → Prop}
    (exact : reading.Exact toBytes Valid) :
    Exact (ExceptT.adapt change reading) toBytes Valid := by
  intro value cursor next
  rw [runFrom_adapt, ← exact value cursor next]
  rcases reading.runFrom cursor with ⟨outcome, after⟩
  cases outcome with
  | error error =>
      constructor
      · intro impossible
        cases impossible
      · intro impossible
        cases impossible
  | ok parsed => rfl

end Reading

namespace ScriptElement

/-- Whether a byte string is a written form of an element. -/
def Written : ScriptElement → Bytes → Prop
  | .op code, bytes =>
      ∃ byte, PushForm.ofByte? byte = none ∧ code = .ofByte byte ∧
        bytes = [byte]
  | .push data, bytes =>
      ∃ byte form, PushForm.ofByte? byte = some form ∧
        form.Announces data.length ∧
        bytes = byte :: (form.lengthField data.length ++ data)

theorem read_eq_ok_iff {element : ScriptElement} {cursor next : Cursor} :
    read.runFrom cursor = (.ok element, next) ↔
      ∃ bytes, element.Written bytes ∧ cursor.Passes bytes next := by
  rw [read, Reading.runFrom_bind_eq_ok]
  constructor
  · rintro ⟨byte, afterByte, readsByte, readsRest⟩
    obtain ⟨-, passesByte⟩ := (readUInt8_exact _ _ _).mp readsByte
    cases formEq : PushForm.ofByte? byte with
    | none =>
        rw [formEq] at readsRest
        cases readsRest
        exact ⟨[byte], ⟨byte, formEq, rfl, rfl⟩, passesByte⟩
    | some form =>
        rw [formEq] at readsRest
        obtain ⟨length, afterLength, readsLength, readsData⟩ :=
          Reading.runFrom_bind_eq_ok.mp readsRest
        obtain ⟨data, afterData, readsBytes, returns⟩ :=
          Reading.runFrom_bind_eq_ok.mp readsData
        cases returns
        obtain ⟨announces, passesLength⟩ :=
          (form.readLength_exact _ _ _).mp readsLength
        obtain ⟨rfl, passesData⟩ :=
          ((readBytes_exact length).adapt _ _ _).mp readsBytes
        refine ⟨[byte] ++ (form.lengthField data.length ++ data),
          ⟨byte, form, formEq, announces, rfl⟩, ?_⟩
        rw [Cursor.passes_append]
        refine ⟨afterByte, passesByte, ?_⟩
        rw [Cursor.passes_append]
        exact ⟨afterLength, passesLength, passesData⟩
  · rintro ⟨bytes, written, passes⟩
    cases element with
    | op code =>
        obtain ⟨byte, formEq, rfl, rfl⟩ := written
        refine ⟨byte, next, (readUInt8_exact _ _ _).mpr ⟨trivial, passes⟩, ?_⟩
        rw [formEq]
        rfl
    | push data =>
        obtain ⟨byte, form, formEq, announces, rfl⟩ := written
        rw [← List.singleton_append, Cursor.passes_append] at passes
        obtain ⟨afterByte, passesByte, passesRest⟩ := passes
        rw [Cursor.passes_append] at passesRest
        obtain ⟨afterLength, passesLength, passesData⟩ := passesRest
        refine ⟨byte, afterByte,
          (readUInt8_exact _ _ _).mpr ⟨trivial, passesByte⟩, ?_⟩
        rw [formEq]
        apply Reading.runFrom_bind_eq_ok.mpr
        refine ⟨data.length, afterLength,
          (form.readLength_exact _ _ _).mpr ⟨announces, passesLength⟩, ?_⟩
        apply Reading.runFrom_bind_eq_ok.mpr
        exact ⟨data, next,
          ((readBytes_exact data.length).adapt _ _ _).mpr ⟨rfl, passesData⟩,
          rfl⟩

theorem Written.ne_nil {element : ScriptElement} {bytes : Bytes}
    (written : element.Written bytes) : bytes ≠ [] := by
  cases element with
  | op code =>
      obtain ⟨byte, -, -, rfl⟩ := written
      exact List.cons_ne_nil byte []
  | push data =>
      obtain ⟨byte, form, -, -, rfl⟩ := written
      exact List.cons_ne_nil byte _

/-- The size of an element's longest written form. -/
def longestSize : ScriptElement → Nat
  | .op _ => 1
  | .push data => data.length + 5

theorem Written.length_le {element : ScriptElement} {bytes : Bytes}
    (written : element.Written bytes) : bytes.length ≤ element.longestSize := by
  cases element with
  | op code =>
      obtain ⟨byte, -, -, rfl⟩ := written
      exact Nat.le_refl 1
  | push data =>
      obtain ⟨byte, form, formEq, -, rfl⟩ := written
      have fieldShort := PushForm.length_lengthField_le formEq data.length
      simp only [List.length_cons, List.length_append, longestSize]
      omega

/-- Whether parsing gives the element back from its shortest form. -/
def Canonical : ScriptElement → Prop
  | .op code => 0x4e < code.toByte ∧ .ofByte code.toByte = code
  | .push data => data.length < 2 ^ 32

instance (element : ScriptElement) : Decidable element.Canonical := by
  cases element <;> unfold Canonical <;> infer_instance

theorem written_toBytes {element : ScriptElement}
    (canonical : element.Canonical) : element.Written element.toBytes := by
  cases element with
  | op code =>
      obtain ⟨high, named⟩ := canonical
      exact ⟨code.toByte, PushForm.ofByte?_eq_none_iff.mpr high, named.symm, rfl⟩
  | push data =>
      obtain ⟨byte, form, formEq, announcesIff, headerEq⟩ :=
        exists_form_pushHeader data.length
      refine ⟨byte, form, formEq, announcesIff.mpr canonical, ?_⟩
      rw [toBytes, headerEq, List.cons_append]

/-- Whether a byte string consists of written forms of the given elements. -/
def AllWritten : List ScriptElement → Bytes → Prop
  | [], bytes => bytes = []
  | element :: elements, bytes =>
      ∃ first rest, element.Written first ∧ AllWritten elements rest ∧
        bytes = first ++ rest

theorem allWritten_no_bytes {elements : List ScriptElement} :
    AllWritten elements [] ↔ elements = [] := by
  cases elements with
  | nil => simp [AllWritten]
  | cons element elements =>
      simp only [AllWritten, List.nil_eq, List.append_eq_nil_iff, reduceCtorEq,
        iff_false]
      rintro ⟨first, rest, written, -, empty, -⟩
      exact written.ne_nil empty

theorem AllWritten.length_le {elements : List ScriptElement} {bytes : Bytes}
    (written : AllWritten elements bytes) :
    bytes.length ≤ (elements.map longestSize).sum := by
  induction elements generalizing bytes with
  | nil =>
      cases written
      exact Nat.le_refl 0
  | cons element elements ih =>
      obtain ⟨first, rest, firstWritten, restWritten, rfl⟩ := written
      rw [List.length_append, List.map_cons, List.sum_cons]
      exact Nat.add_le_add firstWritten.length_le (ih restWritten)

theorem allWritten_flatMap {elements : List ScriptElement}
    (canonical : ∀ element ∈ elements, element.Canonical) :
    AllWritten elements (elements.flatMap toBytes) := by
  induction elements with
  | nil => rfl
  | cons element elements ih =>
      have restWritten :=
        ih fun other otherMem => canonical other (List.mem_cons_of_mem _ otherMem)
      exact ⟨element.toBytes, elements.flatMap toBytes,
        written_toBytes (canonical element List.mem_cons_self), restWritten,
        List.flatMap_cons⟩

end ScriptElement

namespace Script

open ScriptElement

theorem elementsFrom_eq_ok_iff {fuel : Nat} {cursor : Cursor}
    {elements : List ScriptElement} (enough : cursor.unread.length ≤ fuel) :
    elementsFrom fuel cursor = .ok elements ↔
      AllWritten elements cursor.unread := by
  induction fuel generalizing cursor elements with
  | zero =>
      have finished : cursor.unread = [] :=
        List.eq_nil_of_length_eq_zero (by omega)
      rw [elementsFrom, finished, allWritten_no_bytes, Except.ok.injEq]
      exact eq_comm
  | succ fuel ih =>
      rw [elementsFrom]
      split
      · rename_i finished
        rw [finished, allWritten_no_bytes, Except.ok.injEq]
        exact eq_comm
      · rename_i unfinished
        constructor
        · intro parsed
          rcases reads : read.runFrom cursor with ⟨outcome, next⟩
          rw [reads] at parsed
          cases outcome with
          | error error => cases parsed
          | ok element =>
              obtain ⟨bytes, written, unreadEq, -⟩ := read_eq_ok_iff.mp reads
              have nonempty := List.length_pos_iff.mpr written.ne_nil
              rw [unreadEq, List.length_append] at enough
              cases parsedRest : elementsFrom fuel next with
              | error error =>
                  simp only [parsedRest] at parsed
                  cases parsed
              | ok rest =>
                  simp only [parsedRest] at parsed
                  cases parsed
                  exact ⟨bytes, next.unread, written,
                    (ih (by omega)).mp parsedRest, unreadEq⟩
        · intro written
          cases elements with
          | nil => exact absurd written unfinished
          | cons element elements =>
              obtain ⟨bytes, rest, firstWritten, restWritten, unreadEq⟩ :=
                written
              have nonempty := List.length_pos_iff.mpr firstWritten.ne_nil
              rw [unreadEq, List.length_append] at enough
              let next := Cursor.mk (cursor.position + bytes.length) rest
              have reads : read.runFrom cursor = (.ok element, next) :=
                read_eq_ok_iff.mpr ⟨bytes, firstWritten, unreadEq, rfl⟩
              have shorter : next.unread.length ≤ fuel := by
                change rest.length ≤ fuel
                omega
              rw [reads]
              simp only [(ih shorter).mpr restWritten]
              rfl

theorem elements_eq_ok_iff {script : Script} {elements : List ScriptElement} :
    script.elements = .ok elements ↔ AllWritten elements script.toBytes :=
  elementsFrom_eq_ok_iff (Nat.le_refl _)

theorem size_le_of_elements {script : Script} {elements : List ScriptElement}
    (parsed : script.elements = .ok elements) :
    script.size ≤ (elements.map longestSize).sum :=
  (elements_eq_ok_iff.mp parsed).length_le

theorem elements_ofElements {elements : List ScriptElement}
    (canonical : ∀ element ∈ elements, element.Canonical) :
    (ofElements elements).elements = .ok elements :=
  elements_eq_ok_iff.mpr (allWritten_flatMap canonical)

end Script

end CoinSpend
