import CoinSpend.Proofs.StackLimits
import CoinSpend.Proofs.SucceedingRuns
import Mathlib.Data.List.Basic

/-!
# Items below those that a script uses

What an element does is settled by its operands, the topmost items of the stack.
So the elements of a script have a reach, which is the number of items that they
use, and an execution that succeeds carries the items below along: it does not
depend on them, and they stay where they are at every push and pop.
-/

namespace CoinSpend

namespace ScriptElement

/-- How many of the topmost items an element uses. -/
def operands : ScriptElement → Nat
  | .push _ => 0
  | .op .dup => 1
  | .op .hash160 => 1
  | .op .equal => 2
  | .op .equalVerify => 2
  | .op .checkSig => 2
  | .op (.other _) => 0

/-- How many items an element leaves in place of its operands if it succeeds. -/
def results : ScriptElement → Nat
  | .push _ => 1
  | .op .dup => 2
  | .op .hash160 => 1
  | .op .equal => 1
  | .op .equalVerify => 0
  | .op .checkSig => 1
  | .op (.other _) => 0

/-- How many of the topmost items some elements use one after the other.  Those
that the first one leaves are not counted again. -/
def reach : List ScriptElement → Nat
  | [] => 0
  | element :: elements => element.operands + (reach elements - element.results)

end ScriptElement

open ScriptElement

namespace Machine

/-- The machine with more items below its stack and more checks before its
own. -/
def extended (machine : Machine) (base : List Bytes)
    (earlier : List SignatureCheck) : Machine :=
  ⟨machine.stack ++ base, earlier ++ machine.checks⟩

variable {checker : SignatureChecker} {scriptCode script : Script}
  {machine next final : Machine} {base : List Bytes}
  {earlier : List SignatureCheck} {element : ScriptElement}
  {elements : List ScriptElement}

/-- What an element does to its operands, whatever is below them: how it ends,
what it leaves in their place, what it asks for and which way it goes. -/
structure HasEffect (checker : SignatureChecker) (scriptCode : Script)
    (element : ScriptElement) (items : List Bytes) (ending : Except Error Bool)
    (left : List Bytes) (asked : List SignatureCheck)
    (path : List (List Bytes)) : Prop where
  length_left : ending = .ok true → left.length = element.results
  execute_eq : ∀ rest checks,
    execute checker scriptCode ⟨items ++ rest, checks⟩ element =
      (ending, ⟨left ++ rest, checks ++ asked⟩)
  elementPath_eq : ∀ rest,
    elementPath checker scriptCode (items ++ rest) element =
      path.map (· ++ rest)

theorem HasEffect.of_quiet {items : List Bytes} (ending : Except Error Bool)
    (left : List Bytes) (path : List (List Bytes))
    (sized : ending = .ok true → left.length = element.results)
    (executes : ∀ rest checks,
      execute checker scriptCode ⟨items ++ rest, checks⟩ element =
        (ending, ⟨left ++ rest, checks⟩))
    (leads : ∀ rest, elementPath checker scriptCode (items ++ rest) element =
      path.map (· ++ rest)) :
    ∃ ending left asked path,
      HasEffect checker scriptCode element items ending left asked path := by
  refine ⟨ending, left, [], path, sized, fun rest checks => ?_, leads⟩
  rw [List.append_nil]
  exact executes rest checks

theorem exists_hasEffect (checker : SignatureChecker) (scriptCode : Script)
    {items : List Bytes} (count : items.length = element.operands) :
    ∃ ending left asked path,
      HasEffect checker scriptCode element items ending left asked path := by
  cases element with
  | push data =>
      obtain rfl := List.length_eq_zero_iff.mp count
      by_cases long : Script.maxPushSize < data.length
      · exact HasEffect.of_quiet (.error _) [] [] nofun
          (fun _ _ => if_pos long) fun _ => if_pos long
      · exact HasEffect.of_quiet (.ok true) [data] [[data]] (fun _ => rfl)
          (fun _ _ => if_neg long) fun _ => if_neg long
  | op code =>
      cases code with
      | dup =>
          obtain ⟨top, rfl⟩ := List.length_eq_one_iff.mp count
          exact HasEffect.of_quiet (.ok true) [top, top] [[top, top]]
            (fun _ => rfl) (fun _ _ => rfl) fun _ => rfl
      | hash160 =>
          obtain ⟨top, rfl⟩ := List.length_eq_one_iff.mp count
          exact HasEffect.of_quiet (.ok true) [_] [[], [_]]
            (fun _ => rfl) (fun _ _ => rfl) fun _ => rfl
      | equal =>
          obtain ⟨second, first, rfl⟩ := List.length_eq_two.mp count
          exact HasEffect.of_quiet (.ok true) [_] [[first], [], [_]]
            (fun _ => rfl) (fun _ _ => rfl) fun _ => rfl
      | equalVerify =>
          obtain ⟨second, first, rfl⟩ := List.length_eq_two.mp count
          exact HasEffect.of_quiet _ [] [[first], []]
            (fun _ => rfl) (fun _ _ => rfl) fun _ => rfl
      | checkSig =>
          obtain ⟨publicKey, signature, rfl⟩ := List.length_eq_two.mp count
          cases answer : checker ⟨signature, publicKey, scriptCode⟩ with
          | error error =>
              refine ⟨.error error, [], [⟨signature, publicKey, scriptCode⟩],
                [[signature], []], nofun, fun rest checks => ?_,
                fun rest => ?_⟩
              · exact execute_checkSig.trans (by rw [answer]; rfl)
              · simp [elementPath, opPath, answer]
          | ok valid =>
              refine ⟨.ok true, [truthBytes valid],
                [⟨signature, publicKey, scriptCode⟩],
                [[signature], [], [truthBytes valid]], fun _ => rfl,
                fun rest checks => ?_, fun rest => ?_⟩
              · exact execute_checkSig.trans (by rw [answer]; rfl)
              · simp [elementPath, opPath, answer]
      | other byte =>
          obtain rfl := List.length_eq_zero_iff.mp count
          exact HasEffect.of_quiet (.error _) [] [] nofun (fun _ _ => rfl)
            fun _ => rfl

/-- An element without its operands stops the script. -/
theorem execute_of_few (few : machine.stack.length < element.operands) :
    execute checker scriptCode machine element = (.ok false, machine) := by
  obtain ⟨stack, checks⟩ := machine
  cases element with
  | push data => cases few
  | op code =>
      cases code with
      | other byte => cases few
      | dup | hash160 =>
          obtain rfl := List.length_eq_zero_iff.mp (Nat.lt_one_iff.mp few)
          rfl
      | equal | equalVerify | checkSig =>
          rcases stack with _ | ⟨top, _ | ⟨second, rest⟩⟩
          · rfl
          · rfl
          · exact absurd few (by simp [operands])

theorem exists_items {stack : List Bytes} {count : Nat}
    (enough : count ≤ stack.length) :
    ∃ items rest, items.length = count ∧ stack = items ++ rest :=
  ⟨stack.take count, stack.drop count, List.length_take_of_le enough,
    (List.take_append_drop count stack).symm⟩

/-- An element that succeeds has found its operands and left its results. -/
theorem length_of_execute
    (executed : execute checker scriptCode machine element = (.ok true, next)) :
    element.operands ≤ machine.stack.length ∧
      next.stack.length + element.operands =
        machine.stack.length + element.results := by
  have enough : element.operands ≤ machine.stack.length := by
    by_contra few
    rw [execute_of_few (Nat.lt_of_not_le few)] at executed
    cases executed
  refine ⟨enough, ?_⟩
  obtain ⟨stack, checks⟩ := machine
  obtain ⟨items, rest, count, rfl⟩ := exists_items enough
  obtain ⟨ending, left, asked, path, effect⟩ :=
    exists_hasEffect checker scriptCode count
  rw [effect.execute_eq] at executed
  cases executed
  simp only [List.length_append, effect.length_left rfl, count]
  omega

/-- An element that finds its operands does not notice what is below them. -/
theorem execute_extended (checker : SignatureChecker) (scriptCode : Script)
    (enough : element.operands ≤ machine.stack.length) (base : List Bytes)
    (earlier : List SignatureCheck) :
    execute checker scriptCode (machine.extended base earlier) element =
        ((execute checker scriptCode machine element).1,
          (execute checker scriptCode machine element).2.extended base
            earlier) ∧
      elementPath checker scriptCode (machine.stack ++ base) element =
        (elementPath checker scriptCode machine.stack element).map
          (· ++ base) := by
  obtain ⟨stack, checks⟩ := machine
  obtain ⟨items, rest, count, rfl⟩ := exists_items enough
  obtain ⟨ending, left, asked, path, effect⟩ :=
    exists_hasEffect checker scriptCode count
  rw [effect.execute_eq, effect.elementPath_eq, List.append_assoc,
    effect.elementPath_eq, List.map_map]
  constructor
  · simp only [extended, List.append_assoc, effect.execute_eq]
  · simp only [Function.comp_def, List.append_assoc]

/-- A run that succeeds has found all items that its elements use. -/
theorem reach_le_of_run
    (succeeds : run checker scriptCode machine elements = (.ok true, final)) :
    reach elements ≤ machine.stack.length := by
  induction elements generalizing machine with
  | nil => exact Nat.zero_le _
  | cons element elements ih =>
      obtain ⟨next, executed, -, restSucceeds⟩ :=
        run_cons_eq_success_iff.mp succeeds
      obtain ⟨enough, lengths⟩ := length_of_execute executed
      have restReach := ih restSucceeds
      rw [reach]
      omega

/-- What one element does on a longer stack is carried on by the others, unless
the longer stack is too deep. -/
theorem run_extended
    (succeeds : run checker scriptCode machine elements = (.ok true, final))
    (fits : (run checker scriptCode (machine.extended base earlier)
      elements).1 ≠ .error (.script .stackOverflow)) :
    run checker scriptCode (machine.extended base earlier) elements =
        (.ok true, final.extended base earlier) ∧
      runPath checker scriptCode (machine.extended base earlier) elements =
        (runPath checker scriptCode machine elements).map (· ++ base) := by
  induction elements generalizing machine with
  | nil =>
      cases succeeds
      exact ⟨rfl, rfl⟩
  | cons element elements ih =>
      obtain ⟨next, executed, shallow, restSucceeds⟩ :=
        run_cons_eq_success_iff.mp succeeds
      obtain ⟨executes, leads⟩ := execute_extended checker scriptCode
        (length_of_execute executed).1 base earlier
      rw [executed] at executes
      have shallowExtended :
          (next.extended base earlier).stack.length ≤ maxDepth := by
        by_contra deep
        rw [run_cons_of_overflow executes (Nat.lt_of_not_le deep)] at fits
        exact fits rfl
      rw [run_cons_of_success executes shallowExtended] at fits ⊢
      obtain ⟨runEq, pathEq⟩ := ih restSucceeds fits
      refine ⟨runEq, ?_⟩
      rw [runPath, runPath, executes, executed]
      simp only [if_neg (Nat.not_lt.mpr shallowExtended),
        if_neg (Nat.not_lt.mpr shallow), List.map_append, pathEq]
      rw [← leads]
      rfl

/-- A run that succeeds on a longer stack also does so without the items that it
does not use. -/
theorem exists_run_of_extended (enough : reach elements ≤ machine.stack.length)
    (succeeds : run checker scriptCode (machine.extended base earlier)
      elements = (.ok true, final)) :
    ∃ last, run checker scriptCode machine elements = (.ok true, last) ∧
      final = last.extended base earlier := by
  induction elements generalizing machine with
  | nil =>
      cases succeeds
      exact ⟨machine, rfl, rfl⟩
  | cons element elements ih =>
      obtain ⟨next, executed, shallow, restSucceeds⟩ :=
        run_cons_eq_success_iff.mp succeeds
      rw [reach] at enough
      obtain ⟨executes, -⟩ := execute_extended checker scriptCode
        (Nat.le_trans (Nat.le_add_right _ _) enough) base earlier
      rcases unextended : execute checker scriptCode machine element with
        ⟨ending, middle⟩
      rw [unextended, executed] at executes
      cases executes
      have lengths := (length_of_execute unextended).2
      have shallowMiddle : middle.stack.length ≤ maxDepth :=
        Nat.le_trans (by simp [extended]) shallow
      have enoughMiddle : reach elements ≤ middle.stack.length := by omega
      obtain ⟨last, runs, finalEq⟩ := ih enoughMiddle restSucceeds
      refine ⟨last, ?_, finalEq⟩
      rw [run_cons_of_success unextended shallowMiddle, runs]

theorem eval_eq_run (sized : script.size ≤ Script.maxSize)
    (parsed : script.elements = .ok elements) (machine : Machine) :
    eval checker machine script = run checker script machine elements ∧
      evalPath checker machine script =
        runPath checker script machine elements := by
  have fits := Nat.not_lt.mpr sized
  rw [eval, evalPath, if_neg fits, if_neg fits, parsed]
  exact ⟨rfl, rfl⟩

theorem extended_of_no_checks (top : List Bytes) :
    extended ⟨top, []⟩ base earlier = ⟨top ++ base, earlier⟩ := by
  rw [extended, List.append_nil]

theorem eval_extended
    (succeeds : eval checker machine script = (.ok true, final))
    (fits : (eval checker (machine.extended base earlier) script).1 ≠
      .error (.script .stackOverflow)) :
    eval checker (machine.extended base earlier) script =
        (.ok true, final.extended base earlier) ∧
      evalPath checker (machine.extended base earlier) script =
        (evalPath checker machine script).map (· ++ base) := by
  obtain ⟨sized, elements, parsed, runs⟩ := eval_eq_success_iff.mp succeeds
  obtain ⟨evalEq, pathEq⟩ :=
    eval_eq_run sized parsed (machine.extended base earlier)
  rw [evalEq] at fits
  rw [evalEq, pathEq, (eval_eq_run sized parsed machine).2]
  exact run_extended runs fits

/-- The items in the reach of a script are those that it succeeds on alone. -/
theorem exists_used_of_eval (parsed : script.elements = .ok elements)
    (succeeds : eval checker machine script = (.ok true, final)) :
    ∃ used unused last, used.length = reach elements ∧
      machine.stack = used ++ unused ∧
      eval checker ⟨used, []⟩ script = (.ok true, last) ∧
      final = last.extended unused machine.checks := by
  obtain ⟨sized, found, parsedToo, runs⟩ := eval_eq_success_iff.mp succeeds
  rw [parsed] at parsedToo
  cases parsedToo
  obtain ⟨used, unused, count, stackEq⟩ := exists_items (reach_le_of_run runs)
  have asExtended : machine = extended ⟨used, []⟩ unused machine.checks := by
    rw [extended_of_no_checks, ← stackEq]
  rw [asExtended] at runs
  obtain ⟨last, runsAlone, finalEq⟩ :=
    exists_run_of_extended (Nat.le_of_eq count.symm) runs
  exact ⟨used, unused, last, count, stackEq,
    eval_eq_success_iff.mpr ⟨sized, elements, parsed, runsAlone⟩, finalEq⟩

/-- A script that succeeds on a stack also succeeds with further items below it,
unless the stack becomes too deep: it leaves them where they are at every push and
pop, leaves the same items above them and asks for the same checks in the same
order.  The items that a successful execution uses are as many as the reach of the
elements, and those below can be exchanged for any others. -/
theorem eval_keeps_items_below (checker : SignatureChecker) (script : Script) :
    (∀ (top base last : List Bytes) (earlier asked : List SignatureCheck),
      eval checker ⟨top, []⟩ script = (.ok true, ⟨last, asked⟩) →
      (eval checker ⟨top ++ base, earlier⟩ script).1 ≠
          .error (.script .stackOverflow) →
        eval checker ⟨top ++ base, earlier⟩ script =
            (.ok true, ⟨last ++ base, earlier ++ asked⟩) ∧
          evalPath checker ⟨top ++ base, earlier⟩ script =
            (evalPath checker ⟨top, []⟩ script).map (· ++ base)) ∧
    ∀ (elements : List ScriptElement) (machine final : Machine),
      script.elements = .ok elements →
      eval checker machine script = (.ok true, final) →
        ∃ used unused last asked, used.length = reach elements ∧
          machine.stack = used ++ unused ∧
          final = ⟨last ++ unused, machine.checks ++ asked⟩ ∧
          ∀ (base : List Bytes) (earlier : List SignatureCheck),
            (eval checker ⟨used ++ base, earlier⟩ script).1 ≠
                .error (.script .stackOverflow) →
              eval checker ⟨used ++ base, earlier⟩ script =
                (.ok true, ⟨last ++ base, earlier ++ asked⟩) := by
  constructor
  · intro top base last earlier asked succeeds fits
    rw [← extended_of_no_checks top] at fits ⊢
    exact eval_extended succeeds fits
  · intro elements machine final parsed succeeds
    obtain ⟨used, unused, ⟨last, asked⟩, count, stackEq, alone, finalEq⟩ :=
      exists_used_of_eval parsed succeeds
    refine ⟨used, unused, last, asked, count, stackEq, finalEq,
      fun base earlier fits => ?_⟩
    rw [← extended_of_no_checks used] at fits ⊢
    exact (eval_extended alone fits).1

/-- A check and a comparison that use everything above the items below. -/
theorem eval_keeps_items_below_of_touching_check :
    let checker : SignatureChecker := fun check =>
      .ok (check.signature == check.publicKey)
    let script : Script := ⟨[0x76, 0xac, 0x88]⟩
    let elements : List ScriptElement :=
      [.op .dup, .op .checkSig, .op .equalVerify]
    let check : SignatureCheck := ⟨[0x02], [0x02], script⟩
    let top : List Bytes := [[0x02], [0x01]]
    let base : List Bytes := [[0x02], [0x01]]
    script.elements = .ok elements ∧ reach elements = 2 ∧
      eval checker ⟨top, []⟩ script = (.ok true, ⟨[], [check]⟩) ∧
      (eval checker ⟨top ++ base, [check]⟩ script).1 ≠
        .error (.script .stackOverflow) ∧
      eval checker ⟨top ++ base, [check]⟩ script =
        (.ok true, ⟨base, [check, check]⟩) ∧
      ∃ used unused, used.length = 2 ∧ top ++ base = used ++ unused := by
  intro checker script elements check top base
  have parsed : script.elements = .ok elements := by decide
  have alone : eval checker ⟨top, []⟩ script = (.ok true, ⟨[], [check]⟩) := by
    decide
  have fits : (eval checker ⟨top ++ base, [check]⟩ script).1 ≠
      .error (.script .stackOverflow) := by
    decide
  obtain ⟨carried, exchanged⟩ := eval_keeps_items_below checker script
  have onLonger := (carried top base [] [check] [check] alone fits).1
  obtain ⟨used, unused, -, -, count, stackEq, -⟩ :=
    exchanged elements _ _ parsed onLonger
  exact ⟨parsed, rfl, alone, fits, onLonger, used, unused, count, stackEq⟩

end Machine

end CoinSpend
