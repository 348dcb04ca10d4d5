import CoinSpend.Proofs.CanonicalScripts
import CoinSpend.Proofs.ScriptCuts

/-!
# The shortest script of a list of elements

A script may announce the length of a push in a longer field than it needs.  The
script that is built again from its elements has the shortest field in every
push, and no other script of its elements is as short.
-/

namespace CoinSpend

namespace PushForm

/-- No form that can announce the length has a shorter field. -/
def Shortest (form : PushForm) (length : Nat) : Prop :=
  ∀ byte other, ofByte? byte = some other → other.Announces length →
    (form.lengthField length).length ≤ (other.lengthField length).length

variable {byte : UInt8} {form : PushForm} {length : Nat}

theorem length_pushHeader (length : Nat) :
    (pushHeader length).length =
      if length < 0x4c then 1 else if length ≤ 0xff then 2
      else if length ≤ 0xffff then 3 else 5 := by
  unfold pushHeader
  repeat' split
  all_goals simp

/-- Building announces a length in the fewest bytes, and in no other way. -/
theorem pushHeader_shortest (formEq : ofByte? byte = some form)
    (announces : form.Announces length) :
    (pushHeader length).length ≤ (byte :: form.lengthField length).length ∧
      ((byte :: form.lengthField length).length ≤ (pushHeader length).length →
        byte :: form.lengthField length = pushHeader length) := by
  rw [length_pushHeader, List.length_cons]
  rcases cases_of_ofByte? formEq with
    ⟨low, rfl⟩ | ⟨rfl, rfl⟩ | ⟨rfl, rfl⟩ | ⟨rfl, rfl⟩
  · obtain rfl : length = byte.toNat := announces
    have short : byte.toNat < 0x4c := low
    simp [pushHeader, short, lengthField]
  · have fits : length < 256 := announces
    simp only [lengthField, littleEndian_length, pushHeader]
    split
    · omega
    · rw [if_pos (by omega), if_pos (by omega)]
      simp
  · have fits : length < 65536 := announces
    simp only [lengthField, littleEndian_length, pushHeader]
    split
    · omega
    · split
      · omega
      · rw [if_pos (by omega), if_pos (by omega)]
        simp
  · simp only [lengthField, littleEndian_length, pushHeader]
    split
    · omega
    · split
      · omega
      · split
        · omega
        · simp

theorem shortest_iff (formEq : ofByte? byte = some form)
    (announces : form.Announces length) :
    form.Shortest length ↔
      byte :: form.lengthField length = pushHeader length := by
  constructor
  · intro shortest
    obtain ⟨shortByte, shortForm, shortFormEq, announcesIff, headerEq⟩ :=
      exists_form_pushHeader length
    have announcesToo := announcesIff.mpr (lt_of_announces formEq announces)
    have fieldShort := shortest shortByte shortForm shortFormEq announcesToo
    apply (pushHeader_shortest formEq announces).2
    rw [headerEq]
    exact Nat.succ_le_succ fieldShort
  · intro headerEq otherByte other otherEq otherAnnounces
    have least := (pushHeader_shortest otherEq otherAnnounces).1
    rw [← headerEq] at least
    exact Nat.le_of_succ_le_succ least

end PushForm

namespace ScriptElement

variable {element : ScriptElement} {elements : List ScriptElement}
  {bytes : Bytes}

theorem Written.toBytes_shortest (written : element.Written bytes) :
    element.toBytes.length ≤ bytes.length ∧
      (bytes.length ≤ element.toBytes.length → bytes = element.toBytes) := by
  cases element with
  | op code =>
      obtain ⟨byte, -, rfl, rfl⟩ := written
      rw [toBytes, Opcode.toByte_ofByte]
      exact ⟨Nat.le_refl 1, fun _ => rfl⟩
  | push data =>
      obtain ⟨byte, form, formEq, announces, rfl⟩ := written
      obtain ⟨least, onlyLeast⟩ :=
        PushForm.pushHeader_shortest formEq announces
      rw [toBytes, ← List.cons_append, List.length_append, List.length_append]
      refine ⟨Nat.add_le_add_right least _, fun short => ?_⟩
      rw [onlyLeast (Nat.le_of_add_le_add_right short)]

theorem AllWritten.toBytes_shortest (written : AllWritten elements bytes) :
    (elements.flatMap toBytes).length ≤ bytes.length ∧
      (bytes.length ≤ (elements.flatMap toBytes).length →
        bytes = elements.flatMap toBytes) := by
  induction elements generalizing bytes with
  | nil =>
      cases written
      exact ⟨Nat.le_refl 0, fun _ => rfl⟩
  | cons element elements ih =>
      obtain ⟨first, rest, firstWritten, restWritten, rfl⟩ := written
      obtain ⟨firstLeast, onlyFirst⟩ := firstWritten.toBytes_shortest
      obtain ⟨restLeast, onlyRest⟩ := ih restWritten
      rw [List.flatMap_cons, List.length_append, List.length_append]
      refine ⟨Nat.add_le_add firstLeast restLeast, fun short => ?_⟩
      rw [onlyFirst (by omega), onlyRest (by omega)]

theorem exists_place_of_mem {data : Bytes} (written : AllWritten elements bytes)
    (pushed : .push data ∈ elements) :
    ∃ place : PushPlace, place.In bytes ∧ place.data = data := by
  induction elements generalizing bytes with
  | nil => cases pushed
  | cons element elements ih =>
      obtain ⟨first, rest, firstWritten, restWritten, rfl⟩ := written
      rcases List.mem_cons.mp pushed with rfl | later
      · obtain ⟨byte, form, formEq, announces, rfl⟩ := firstWritten
        exact ⟨⟨[], byte, form, data⟩,
          ⟨⟨[], rfl⟩, formEq, announces, rest, rfl⟩, rfl⟩
      · obtain ⟨place, inRest, dataEq⟩ := ih restWritten later
        exact ⟨place.behind first, inRest.behind firstWritten, dataEq⟩

/-- A script with the shortest field in every push is the built one. -/
theorem AllWritten.eq_flatMap_of_shortest (written : AllWritten elements bytes)
    (shortest : ∀ place : PushPlace, place.In bytes →
      place.form.Shortest place.data.length) :
    bytes = elements.flatMap toBytes := by
  induction elements generalizing bytes with
  | nil => exact written
  | cons element elements ih =>
      obtain ⟨first, rest, firstWritten, restWritten, rfl⟩ := written
      have restEq : rest = elements.flatMap toBytes :=
        ih restWritten fun place inRest =>
          shortest (place.behind first) (inRest.behind firstWritten)
      have firstEq : first = element.toBytes := by
        cases element with
        | op code =>
            obtain ⟨byte, -, rfl, rfl⟩ := firstWritten
            rw [toBytes, Opcode.toByte_ofByte]
        | push data =>
            obtain ⟨byte, form, formEq, announces, rfl⟩ := firstWritten
            have atFront := shortest ⟨[], byte, form, data⟩
              ⟨⟨[], rfl⟩, formEq, announces, rest, rfl⟩
            have headerEq :=
              (PushForm.shortest_iff formEq announces).mp atFront
            rw [toBytes, ← headerEq, List.cons_append]
      rw [List.flatMap_cons, ← firstEq, ← restEq]

end ScriptElement

namespace PushPlace

open ScriptElement

variable {place : PushPlace} {bytes : Bytes}

theorem In.written_pushBytes (inBytes : place.In bytes) :
    Written (.push place.data) place.pushBytes :=
  ⟨place.first, place.form, inBytes.formEq, inBytes.announces, rfl⟩

/-- A push of a script is one of its elements. -/
theorem In.exists_split {elements : List ScriptElement}
    (inBytes : place.In bytes) (written : AllWritten elements bytes) :
    ∃ before after back, elements = before ++ .push place.data :: after ∧
      bytes = place.front ++ (place.pushBytes ++ back) ∧
      AllWritten before place.front ∧ AllWritten after back := by
  obtain ⟨before, frontWritten⟩ := inBytes.front_written
  obtain ⟨back, rfl⟩ := inBytes.bytes_eq
  have parsed := Script.elements_eq_ok_iff.mpr written
  rw [Script.elements_append frontWritten,
    Script.elements_written_append inBytes.written_pushBytes] at parsed
  cases parsedBack : (Script.mk back).elements with
  | error error =>
      rw [parsedBack] at parsed
      cases parsed
  | ok after =>
      rw [parsedBack] at parsed
      cases parsed
      exact ⟨before, after, back, rfl, rfl, frontWritten,
        Script.elements_eq_ok_iff.mp parsedBack⟩

/-- Every push of a built script has the shortest field. -/
theorem In.shortest {elements : List ScriptElement}
    (inBuilt : place.In (elements.flatMap toBytes))
    (written : AllWritten elements (elements.flatMap toBytes)) :
    place.form.Shortest place.data.length := by
  obtain ⟨before, after, back, rfl, bytesEq, frontWritten, backWritten⟩ :=
    inBuilt.exists_split written
  have frontLeast := frontWritten.toBytes_shortest.1
  have backLeast := backWritten.toBytes_shortest.1
  obtain ⟨-, onlyLeast⟩ := inBuilt.written_pushBytes.toBytes_shortest
  -- No part is longer than it is when built, because the whole is not.
  have lengths := congrArg List.length bytesEq
  simp only [List.flatMap_append, List.flatMap_cons,
    List.length_append] at lengths
  have pushEq := onlyLeast (by omega)
  rw [PushForm.shortest_iff inBuilt.formEq inBuilt.announces]
  exact List.append_cancel_right pushEq

end PushPlace

namespace Script

open ScriptElement

/-- The script built again from its elements. -/
def normalized (script : Script) : Except Error Script := do
  return ofElements (← script.elements)

variable {script : Script} {elements : List ScriptElement}

theorem normalized_of_elements (parsed : script.elements = .ok elements) :
    script.normalized = .ok (ofElements elements) := by
  rw [normalized, parsed]
  rfl

theorem elements_ofElements_of_elements
    (parsed : script.elements = .ok elements) :
    (ofElements elements).elements = .ok elements :=
  elements_ofElements (elements_eq_ok_iff.mp parsed).canonical

theorem ofElements_eq_iff_shortest (parsed : script.elements = .ok elements) :
    ofElements elements = script ↔
      ∀ place : PushPlace, place.In script.toBytes →
        place.form.Shortest place.data.length := by
  have written := elements_eq_ok_iff.mp parsed
  constructor
  · rintro rfl place inBuilt
    exact inBuilt.shortest written
  · intro shortest
    exact congrArg mk (written.eq_flatMap_of_shortest shortest).symm

theorem size_ofElements_le (parsed : script.elements = .ok elements) :
    (ofElements elements).size ≤ script.size :=
  (elements_eq_ok_iff.mp parsed).toBytes_shortest.1

theorem eq_ofElements_of_size_le (parsed : script.elements = .ok elements)
    (short : script.size ≤ (ofElements elements).size) :
    script = ofElements elements :=
  congrArg mk ((elements_eq_ok_iff.mp parsed).toBytes_shortest.2 short)

/-- Building a parsed script again keeps its elements and gives the only
shortest script that has them.  This changes the script exactly if some push of
it has a longer field than it needs, and so nothing the second time. -/
theorem ofElements_shortest {script : Script} {elements : List ScriptElement}
    (parsed : script.elements = .ok elements) :
    (ofElements elements).elements = .ok elements ∧
      (∀ other : Script, other.elements = .ok elements →
        (ofElements elements).size ≤ other.size ∧
          (other.size ≤ (ofElements elements).size →
            other = ofElements elements)) ∧
      (ofElements elements = script ↔
        ∀ place : PushPlace, place.In script.toBytes →
          place.form.Shortest place.data.length) ∧
      (∀ data, .push data ∈ elements ↔
        ∃ place : PushPlace, place.In script.toBytes ∧ place.data = data) ∧
      script.normalized = .ok (ofElements elements) ∧
      (ofElements elements).normalized = .ok (ofElements elements) := by
  have rebuilt := elements_ofElements_of_elements parsed
  refine ⟨rebuilt, fun other parsedOther =>
      ⟨size_ofElements_le parsedOther, eq_ofElements_of_size_le parsedOther⟩,
    ofElements_eq_iff_shortest parsed, fun data => ⟨fun pushed => ?_, ?_⟩,
    normalized_of_elements parsed, normalized_of_elements rebuilt⟩
  · exact exists_place_of_mem (elements_eq_ok_iff.mp parsed) pushed
  · rintro ⟨place, inScript, rfl⟩
    obtain ⟨before, after, -, rfl, -⟩ :=
      inScript.exists_split (elements_eq_ok_iff.mp parsed)
    exact List.mem_append_right before List.mem_cons_self

/-- Two pushes with wider fields than they need, the second one of no data. -/
theorem ofElements_shortest_of_wide_pushes :
    let script : Script := ⟨[0x4c, 2, 0x11, 0x22, 0x4e, 0, 0, 0, 0, 0x76]⟩
    let built : Script := ⟨[2, 0x11, 0x22, 0, 0x76]⟩
    let elements : List ScriptElement :=
      [.push [0x11, 0x22], .push [], .op .dup]
    script.elements = .ok elements ∧ ofElements elements = built ∧
      built.elements = .ok elements ∧ built.size ≤ script.size ∧
      (¬ ∀ place : PushPlace, place.In script.toBytes →
        place.form.Shortest place.data.length) ∧
      script.normalized = .ok built ∧ built.normalized = .ok built := by
  intro script built elements
  have parsed : script.elements = .ok elements := by decide
  have builtEq : ofElements elements = built := by decide
  obtain ⟨rebuilt, least, sameIff, -, first, second⟩ :=
    ofElements_shortest parsed
  rw [builtEq] at rebuilt least sameIff first second
  exact ⟨parsed, builtEq, rebuilt, (least script parsed).1,
    sameIff.not.mp (by decide), first, second⟩

end Script

end CoinSpend
