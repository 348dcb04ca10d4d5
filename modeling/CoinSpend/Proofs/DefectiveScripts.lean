import CoinSpend.Proofs.ScriptCuts
import CoinSpend.Proofs.SucceedingRuns

/-!
# Defective scripts are never satisfied

A script that is too long or ends in the middle of a push is refused before its
first element, whatever stands in front of the defect.  An operation without a
meaning and a push that is too large are found only when they are executed, but
success means that every element was executed.
-/

namespace CoinSpend

/-- Whether the bytes begin a push, at least with its first byte, and end before
it does. -/
def BeginsPush (bytes : Bytes) : Prop :=
  bytes ≠ [] ∧
    ∃ data whole, ScriptElement.Written (.push data) whole ∧ IsCut bytes whole

namespace ScriptElement

theorem beginsPush_of_field {byte : UInt8} {form : PushForm} {rest data : Bytes}
    (formEq : PushForm.ofByte? byte = some form)
    (announces : form.Announces data.length)
    (cut : IsCut rest (form.lengthField data.length ++ data)) :
    BeginsPush (byte :: rest) := by
  obtain ⟨missing, nonempty, same⟩ := cut
  refine ⟨List.cons_ne_nil byte rest, data, _,
    ⟨byte, form, formEq, announces, rfl⟩, missing, nonempty, ?_⟩
  rw [same, List.cons_append]

/-- The length of a push is missing only in part of its field. -/
theorem beginsPush_of_readLength {byte : UInt8} {form : PushForm}
    {cursor next : Cursor} {error : Error}
    (formEq : PushForm.ofByte? byte = some form)
    (fails : form.readLength.runFrom cursor = (.error error, next)) :
    BeginsPush (byte :: cursor.unread) := by
  cases form with
  | direct length => cases fails
  | field width =>
      obtain ⟨short, -⟩ := (readNumber_needs width _ _ _).mp fails
      obtain ⟨length, -, fits, cut⟩ :=
        exists_isCut_littleEndian short (Nat.zero_le _)
      -- any data of an announced length completes the push
      obtain ⟨data, rfl⟩ : ∃ data : Bytes, data.length = length :=
        ⟨List.replicate length 0, List.length_replicate⟩
      exact beginsPush_of_field formEq fits
        (isCut_append_iff.mpr (.inl cut))

theorem beginsPush_of_readBytes {byte : UInt8} {form : PushForm}
    {length : Nat} {cursor middle next : Cursor} {error : Error}
    (formEq : PushForm.ofByte? byte = some form)
    (reads : form.readLength.runFrom cursor = (.ok length, middle))
    (fails : (readBytes length).runFrom middle = (.error error, next)) :
    BeginsPush (byte :: cursor.unread) := by
  obtain ⟨announces, unreadEq, -⟩ := (form.readLength_exact _ _ _).mp reads
  obtain ⟨short, -⟩ := (readBytes_needs length _ _ _).mp fails
  obtain ⟨data, rfl, cut⟩ := exists_isCut_of_length_lt short
  apply beginsPush_of_field formEq announces
  exact isCut_append_iff.mpr (.inr ⟨middle.unread, unreadEq, cut⟩)

/-- Reading an element from some bytes fails only in the middle of a push. -/
theorem beginsPush_of_read {bytes : Bytes} {next : Cursor} {error : Error}
    (nonempty : bytes ≠ [])
    (fails : read.runFrom (.start bytes) = (.error error, next)) :
    BeginsPush bytes := by
  obtain ⟨byte, rest, rfl⟩ := List.exists_cons_of_ne_nil nonempty
  cases formEq : PushForm.ofByte? byte with
  | none =>
      have written : Written (.op (.ofByte byte)) [byte] :=
        ⟨byte, formEq, rfl, rfl⟩
      have reads : read.runFrom (.start (byte :: rest)) = (.ok _, ⟨1, rest⟩) :=
        read_eq_ok_iff.mpr ⟨[byte], written, rfl, rfl⟩
      rw [reads] at fails
      cases fails
  | some form =>
      rw [Cursor.start, runFrom_read_of_push formEq,
        Reading.runFrom_bind_eq_error] at fails
      rcases fails with failsLength | ⟨length, middle, readsLength, failsData⟩
      · exact beginsPush_of_readLength formEq failsLength
      · rw [Reading.runFrom_bind_eq_error, Reading.runFrom_adapt] at failsData
        rcases failsData with failsBytes | ⟨data, after, -, failsPure⟩
        · rcases reads : (readBytes length).runFrom middle with
            ⟨outcome, after⟩
          rw [reads] at failsBytes
          cases outcome with
          | error found => exact beginsPush_of_readBytes formEq readsLength reads
          | ok data => cases failsBytes
        · cases failsPure

theorem elements_of_beginsPush {bytes : Bytes} (begins : BeginsPush bytes) :
    ∃ error, (Script.mk bytes).elements = .error error := by
  obtain ⟨nonempty, data, whole, written, cut⟩ := begins
  rcases written.cut_cases cut [] with
    none | ⟨place, present, inWhole, cutsLength | cutsData⟩
  · exact absurd none nonempty
  · exact ⟨_, inWhole.elements_of_cutsLength cutsLength⟩
  · exact ⟨_, inWhole.elements_of_cutsData cutsData⟩

end ScriptElement

namespace Script

open ScriptElement

/-- Whether some whole elements are followed by a push that is not complete. -/
def HasIncompletePush (script : Script) : Prop :=
  ∃ elements front rest, AllWritten elements front ∧ BeginsPush rest ∧
    script.toBytes = front ++ rest

theorem hasIncompletePush_of_error {bytes : Bytes} {error : Error}
    (refused : (mk bytes).elements = .error error) :
    (mk bytes).HasIncompletePush := by
  induction count : bytes.length using Nat.strong_induction_on
    generalizing bytes with
  | _ total ih =>
      have nonempty : bytes ≠ [] := by
        rintro rfl
        cases refused
      rcases reads : read.runFrom (.start bytes) with ⟨outcome, next⟩
      cases outcome with
      | error found =>
          exact ⟨[], [], bytes, rfl, beginsPush_of_read nonempty reads, rfl⟩
      | ok element =>
          obtain ⟨consumed, written, passes, -⟩ := read_eq_ok_iff.mp reads
          change bytes = consumed ++ next.unread at passes
          have positive := List.length_pos_iff.mpr written.ne_nil
          have shorter : next.unread.length < total := by
            rw [← count, passes, List.length_append]
            omega
          rw [passes, elements_written_append written] at refused
          cases parsedRest : (mk next.unread).elements with
          | ok elements =>
              rw [parsedRest] at refused
              cases refused
          | error found =>
              rw [parsedRest] at refused
              cases refused
              obtain ⟨elements, front, rest, frontWritten, begins, restEq⟩ :=
                ih _ shorter parsedRest rfl
              change next.unread = front ++ rest at restEq
              refine ⟨element :: elements, consumed ++ front, rest,
                ⟨consumed, front, written, frontWritten, rfl⟩, begins, ?_⟩
              rw [passes, restEq, List.append_assoc]

/-- Parsing fails exactly because of an incomplete push. -/
theorem exists_elements_eq_error_iff {script : Script} :
    (∃ error, script.elements = .error error) ↔ script.HasIncompletePush := by
  constructor
  · rintro ⟨error, refused⟩
    exact hasIncompletePush_of_error refused
  · rintro ⟨elements, front, rest, frontWritten, begins, bytesEq⟩
    obtain ⟨error, refused⟩ := elements_of_beginsPush begins
    refine ⟨error, ?_⟩
    obtain ⟨bytes⟩ := script
    change bytes = front ++ rest at bytesEq
    rw [bytesEq, elements_append frontWritten, refused]
    rfl

end Script

/-- Whether there is a stack on which the element can succeed: it is one of the
named operations, or a push within the limit of execution. -/
def ScriptElement.Executable : ScriptElement → Prop
  | .op code => code ∈ [.dup, .hash160, .equal, .equalVerify, .checkSig]
  | .push data => data.length ≤ 520

instance (element : ScriptElement) : Decidable element.Executable :=
  match element with
  | .op code =>
      inferInstanceAs (Decidable
        (code ∈ [.dup, .hash160, .equal, .equalVerify, .checkSig]))
  | .push data => inferInstanceAs (Decidable (data.length ≤ 520))

/-- What rules out that a script succeeds on any stack. -/
def Script.Defective (script : Script) : Prop :=
  10000 < script.size ∨ script.HasIncompletePush ∨
    ∃ elements, script.elements = .ok elements ∧
      ∃ element ∈ elements, ¬ element.Executable

namespace Machine

variable {checker : SignatureChecker} {scriptCode script : Script}
  {machine final : Machine} {element : ScriptElement}
  {elements : List ScriptElement}

theorem executable_of_execute
    (executed : execute checker scriptCode machine element =
      (.ok true, final)) :
    element.Executable := by
  cases element with
  | push data =>
      rw [execute] at executed
      split at executed
      · cases executed
      · rename_i short
        exact Nat.not_lt.mp short
  | op code =>
      cases code with
      | other byte => cases executed
      | _ => simp [ScriptElement.Executable]

/-- Success means that every element was executed. -/
theorem executable_of_run
    (succeeds : run checker scriptCode machine elements = (.ok true, final)) :
    ∀ element ∈ elements, element.Executable := by
  induction elements generalizing machine with
  | nil => exact List.forall_mem_nil _
  | cons element elements ih =>
      obtain ⟨next, executed, -, restSucceeds⟩ :=
        run_cons_eq_success_iff.mp succeeds
      exact List.forall_mem_cons.mpr
        ⟨executable_of_execute executed, ih restSucceeds⟩

theorem not_defective_of_eval
    (succeeds : eval checker machine script = (.ok true, final)) :
    ¬ script.Defective := by
  obtain ⟨sized, elements, parsed, runs⟩ := eval_eq_success_iff.mp succeeds
  rintro (long | incomplete | ⟨others, parsedToo, element, elementMem, stuck⟩)
  · exact absurd long (Nat.not_lt.mpr sized)
  · obtain ⟨error, refused⟩ :=
      Script.exists_elements_eq_error_iff.mpr incomplete
    rw [parsed] at refused
    cases refused
  · rw [parsed] at parsedToo
    cases parsedToo
    exact stuck (executable_of_run runs element elementMem)

theorem eval_fst_ne_of_defective (checker : SignatureChecker)
    (machine : Machine) (defective : script.Defective) :
    (eval checker machine script).1 ≠ .ok true := by
  intro succeeds
  exact not_defective_of_eval (Prod.ext succeeds rfl) defective

/-- A script that is too long or does not parse is refused as a whole. -/
theorem eval_of_unread (checker : SignatureChecker) (machine : Machine)
    (unread : 10000 < script.size ∨ script.HasIncompletePush) :
    ∃ error, eval checker machine script = (.error error, machine) := by
  unfold eval
  split
  · exact ⟨_, rfl⟩
  · rename_i fits
    obtain ⟨error, refused⟩ := Script.exists_elements_eq_error_iff.mpr
      (unread.resolve_left fits)
    rw [refused]
    exact ⟨error, rfl⟩

end Machine

theorem verifyScripts_ne_of_defective (checker : SignatureChecker)
    {unlocking locking : Script}
    (defective : unlocking.Defective ∨ locking.Defective) :
    verifyScripts checker unlocking locking ≠ .ok true := by
  intro verified
  obtain ⟨final, spends⟩ := verifyScripts_eq_true_iff.mp verified
  obtain ⟨-, ⟨next, unlocks, locks⟩, -⟩ := runScripts_eq_success_iff.mp spends
  rcases defective with unlockingDefective | lockingDefective
  · exact Machine.not_defective_of_eval unlocks unlockingDefective
  · exact Machine.not_defective_of_eval locks lockingDefective

/-- A script that is too long or has an incomplete push fails with the machine
as it was, so without a check.  One that parses does not succeed if it has an
operation without a name or a push of more than 520 bytes.  A spend fails if
either script has one of these defects. -/
theorem eval_fails_closed (checker : SignatureChecker) :
    (∀ (machine : Machine) (script : Script),
      10000 < script.size ∨ script.HasIncompletePush →
        ∃ error, machine.eval checker script = (.error error, machine)) ∧
    (∀ (machine : Machine) (script : Script) (elements : List ScriptElement),
      script.elements = .ok elements →
        (∃ element ∈ elements, ¬ element.Executable) →
          (machine.eval checker script).1 ≠ .ok true) ∧
    ∀ unlocking locking : Script,
      unlocking.Defective ∨ locking.Defective →
        verifyScripts checker unlocking locking ≠ .ok true := by
  refine ⟨fun machine script => Machine.eval_of_unread checker machine,
    fun machine script elements parsed stuck => ?_,
    fun unlocking locking => verifyScripts_ne_of_defective checker⟩
  exact Machine.eval_fst_ne_of_defective checker machine
    (.inr (.inr ⟨elements, parsed, stuck⟩))

/-- A length field that is cut short behind two operations that could be
executed, and an operation without a name behind a push. -/
theorem eval_fails_closed_of_late_defects :
    let checker : SignatureChecker := fun _ => .ok true
    let machine : Machine := ⟨[[0x05]], []⟩
    let cut : Script := ⟨[0x76, 0xac, 0x4d, 0x02]⟩
    let foreign : Script := ⟨[0x01, 0x01, 0x61]⟩
    let elements : List ScriptElement := [.push [0x01], .op (.other 0x61)]
    cut.HasIncompletePush ∧
      (∃ error, machine.eval checker cut = (.error error, machine)) ∧
      foreign.elements = .ok elements ∧
      (∃ element ∈ elements, ¬ element.Executable) ∧
      (machine.eval checker foreign).1 ≠ .ok true ∧
      foreign.Defective ∧
      verifyScripts checker .empty foreign ≠ .ok true := by
  intro checker machine cut foreign elements
  have incomplete : cut.HasIncompletePush :=
    Script.exists_elements_eq_error_iff.mp ⟨.truncated 2 1, by decide⟩
  have parsed : foreign.elements = .ok elements := by decide
  have stuck : ∃ element ∈ elements, ¬ element.Executable := by decide
  have defective : foreign.Defective := .inr (.inr ⟨elements, parsed, stuck⟩)
  obtain ⟨refuses, neverSucceeds, neverSpends⟩ := eval_fails_closed checker
  exact ⟨incomplete, refuses machine cut (.inr incomplete), parsed, stuck,
    neverSucceeds machine foreign elements parsed stuck, defective,
    neverSpends .empty foreign (.inr defective)⟩

end CoinSpend
