import CoinSpend.Proofs.ScriptForms

/-!
# Which lists of elements survive building and parsing

A built script consists of the shortest forms of its elements, and whatever
parses has canonical elements only.  So parsing gives the same elements back
exactly if each of them is canonical.
-/

namespace CoinSpend

namespace ScriptElement

variable {element : ScriptElement} {elements : List ScriptElement}
  {bytes : Bytes}

/-- What parses is canonical, however its length is announced. -/
theorem Written.canonical (written : element.Written bytes) :
    element.Canonical := by
  cases element with
  | op code =>
      obtain ⟨byte, notPush, rfl, -⟩ := written
      have byteEq := Opcode.toByte_ofByte byte
      refine ⟨?_, congrArg Opcode.ofByte byteEq⟩
      rw [byteEq]
      exact PushForm.ofByte?_eq_none_iff.mp notPush
  | push data =>
      obtain ⟨byte, form, formEq, announces, -⟩ := written
      exact PushForm.lt_of_announces formEq announces

theorem AllWritten.canonical (written : AllWritten elements bytes) :
    ∀ element ∈ elements, element.Canonical := by
  induction elements generalizing bytes with
  | nil => exact List.forall_mem_nil _
  | cons element elements ih =>
      obtain ⟨first, rest, firstWritten, restWritten, -⟩ := written
      exact List.forall_mem_cons.mpr
        ⟨firstWritten.canonical, ih restWritten⟩

theorem allWritten_flatMap_iff :
    AllWritten elements (elements.flatMap toBytes) ↔
      ∀ element ∈ elements, element.Canonical :=
  ⟨AllWritten.canonical, allWritten_flatMap⟩

/-- Whether an element is a push of a length that its field can hold, or an
operation with a name. -/
def PushOrNamed : ScriptElement → Prop
  | .op code => code ∈ [.dup, .hash160, .equal, .equalVerify, .checkSig]
  | .push data => data.length < 2 ^ 32

theorem PushOrNamed.canonical (known : element.PushOrNamed) :
    element.Canonical := by
  cases element with
  | op code =>
      simp only [PushOrNamed, List.mem_cons, List.not_mem_nil,
        or_false] at known
      rcases known with rfl | rfl | rfl | rfl | rfl <;> decide
  | push data => exact known

end ScriptElement

namespace Script

/-- Parsing gives back the elements that a script was built from exactly if
each of them is canonical.  Pushes and the operations with names are. -/
theorem elements_ofElements_eq_ok_iff :
    (∀ elements : List ScriptElement,
      (ofElements elements).elements = .ok elements ↔
        ∀ element ∈ elements, element.Canonical) ∧
      ∀ elements : List ScriptElement,
        (∀ element ∈ elements, element.PushOrNamed) →
          (ofElements elements).elements = .ok elements := by
  refine ⟨fun elements => ?_, fun elements known => ?_⟩
  · exact elements_eq_ok_iff.trans ScriptElement.allWritten_flatMap_iff
  · exact elements_ofElements fun element elementMem =>
      (known element elementMem).canonical

/-- Pushed data may look like operations and pushes, but an operation that is
known by the byte of another one is not found again. -/
theorem elements_ofElements_of_code_data :
    let spend : List ScriptElement :=
      [.push (List.replicate 76 0xac), .op .dup, .push [], .push [0x4e, 0x76]]
    let misnamed : List ScriptElement := [.push [], .op (.other 0x76), .op .dup]
    (∀ element ∈ spend, element.PushOrNamed) ∧
      (ofElements spend).elements = .ok spend ∧
      (ofElements misnamed).elements ≠ .ok misnamed := by
  intro spend misnamed
  have known : ∀ element ∈ spend, element.PushOrNamed := by
    simp [spend, ScriptElement.PushOrNamed]
  refine ⟨known, elements_ofElements_eq_ok_iff.2 spend known, ?_⟩
  rw [ne_eq, elements_ofElements_eq_ok_iff.1]
  decide

end Script

end CoinSpend
