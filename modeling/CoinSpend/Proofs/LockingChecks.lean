import CoinSpend.Proofs.KeyHashDecision
import CoinSpend.Proofs.SucceedingRuns

/-!
# Signature checks are asked for by the locking script

An unlocking script pushes and asks for nothing, so every check of a spend is
asked for in the name of the locking script.  If that script ends with a check,
the verdict is the answer to it, whatever the unlocking script has pushed.
-/

namespace CoinSpend

namespace Machine

variable {checker : SignatureChecker} {scriptCode script : Script}
  {machine final : Machine} {elements : List ScriptElement}

theorem scriptCode_of_mem_eval {check : SignatureCheck}
    (asked : check ∈ (eval checker machine script).2.checks) :
    check ∈ machine.checks ∨ check.scriptCode = script := by
  unfold eval at asked
  split at asked
  · exact .inl asked
  · cases parsed : script.elements with
    | error error =>
        rw [parsed] at asked
        exact .inl asked
    | ok elements =>
        rw [parsed] at asked
        obtain ⟨more, checksEq, byRun⟩ :=
          exists_asked_run checker script machine elements
        simp only [checksEq, List.mem_append] at asked
        exact asked.imp_right fun inMore => (byRun check inMore).1

theorem checks_eval_of_isPushOnly (pushes : script.isPushOnly = true) :
    (eval checker machine script).2.checks = machine.checks := by
  obtain ⟨items, parsed⟩ := exists_items_of_isPushOnly pushes
  unfold eval
  split
  · rfl
  · obtain ⟨asked, checksEq, byRun⟩ :=
      exists_asked_run checker script machine (items.map .push)
    have unasked : asked = [] := by
      refine List.eq_nil_iff_forall_not_mem.mpr fun check checkMem => ?_
      have notPush := (byRun check checkMem).2
      simp at notPush
    simp only [parsed, checksEq, unasked, List.append_nil]

theorem execute_checkSig_eq_success_iff :
    execute checker scriptCode machine (.op .checkSig) = (.ok true, final) ↔
      ∃ publicKey signature rest valid,
        machine.stack = publicKey :: signature :: rest ∧
          checker ⟨signature, publicKey, scriptCode⟩ = .ok valid ∧
          final = ⟨truthBytes valid :: rest,
            machine.checks ++ [⟨signature, publicKey, scriptCode⟩]⟩ := by
  obtain ⟨stack, checks⟩ := machine
  constructor
  · intro executed
    rcases stack with _ | ⟨publicKey, _ | ⟨signature, rest⟩⟩
    · cases executed
    · cases executed
    · rw [execute_checkSig] at executed
      cases answer : checker ⟨signature, publicKey, scriptCode⟩ with
      | error error =>
          rw [answer] at executed
          cases executed
      | ok valid =>
          rw [answer] at executed
          cases executed
          exact ⟨publicKey, signature, rest, valid, rfl, answer, rfl⟩
  · rintro ⟨publicKey, signature, rest, valid, rfl, answer, rfl⟩
    rw [execute_checkSig, answer]
    rfl

/-- A script that succeeds and ends with a check leaves the answer on top. -/
theorem exists_last_check
    (ends : script.elements = .ok (elements ++ [.op .checkSig]))
    (succeeds : eval checker machine script = (.ok true, final)) :
    ∃ earlier check, final.checks = earlier ++ [check] ∧
      checker check = .ok final.verdict := by
  obtain ⟨-, parsed, parsedEq, runs⟩ := eval_eq_success_iff.mp succeeds
  rw [ends] at parsedEq
  cases parsedEq
  obtain ⟨before, -, runsLast⟩ := run_append_eq_success_iff.mp runs
  obtain ⟨next, executed, -, finished⟩ := run_cons_eq_success_iff.mp runsLast
  cases finished
  obtain ⟨publicKey, signature, rest, valid, -, answer, rfl⟩ :=
    execute_checkSig_eq_success_iff.mp executed
  refine ⟨before.checks, _, rfl, ?_⟩
  rw [answer]
  change Except.ok valid = .ok (truthy (truthBytes valid))
  rw [truthy_truthBytes]

end Machine

section Pair

variable {checker : SignatureChecker} {unlocking locking : Script}

theorem scriptCode_of_mem_unlocked {outcome : Outcome} {check : SignatureCheck}
    (asked : check ∈ (unlocked checker locking outcome).2.checks) :
    check ∈ outcome.2.checks ∨ check.scriptCode = locking := by
  rcases outcome with ⟨error | _ | _, next⟩
  · exact .inl asked
  · exact .inl asked
  · rw [unlocked, checks_judged] at asked
    exact Machine.scriptCode_of_mem_eval asked

theorem scriptCode_of_mem_runScripts {check : SignatureCheck}
    (asked : check ∈ (runScripts checker unlocking locking).2.checks) :
    check.scriptCode = locking := by
  by_cases pushes : unlocking.isPushOnly = true
  · rw [runScripts_eq_unlocked pushes] at asked
    refine (scriptCode_of_mem_unlocked asked).resolve_left ?_
    rw [Machine.checks_eval_of_isPushOnly pushes]
    exact List.not_mem_nil
  · rw [runScripts, if_neg pushes] at asked
    cases asked

/-- Every check of a spend is asked for in the name of the locking script, so a
checker matters only by its answers for that script.  A spend of a locking script
that ends with a check succeeds only if the last check that was asked for
does. -/
theorem verifyScripts_asks_for_locking (unlocking locking : Script) :
    (∀ checker : SignatureChecker,
      ∀ check ∈ (runScripts checker unlocking locking).2.checks,
        check.scriptCode = locking) ∧
    (∀ checker other : SignatureChecker,
      (∀ signature publicKey : Bytes,
        checker ⟨signature, publicKey, locking⟩ =
          other ⟨signature, publicKey, locking⟩) →
      verifyScripts checker unlocking locking =
        verifyScripts other unlocking locking) ∧
    ∀ (checker : SignatureChecker) (elements : List ScriptElement),
      locking.elements = .ok (elements ++ [.op .checkSig]) →
      verifyScripts checker unlocking locking = .ok true →
        ∃ earlier check,
          (runScripts checker unlocking locking).2.checks =
              earlier ++ [check] ∧
            checker check = .ok true := by
  refine ⟨fun checker check => scriptCode_of_mem_runScripts,
    fun checker other agree => ?_, fun checker elements ends verified => ?_⟩
  · unfold verifyScripts
    have askedAgree : ∀ check ∈
        (runScripts checker unlocking locking).2.checks,
        checker check = other check := by
      rintro ⟨signature, publicKey, scriptCode⟩ asked
      obtain rfl : scriptCode = locking := scriptCode_of_mem_runScripts asked
      exact agree signature publicKey
    rw [runScripts_congr askedAgree]
  · obtain ⟨final, spends⟩ := verifyScripts_eq_true_iff.mp verified
    obtain ⟨-, ⟨next, -, locks⟩, verdict⟩ := runScripts_eq_success_iff.mp spends
    obtain ⟨earlier, check, checksEq, answer⟩ :=
      Machine.exists_last_check ends locks
    rw [verdict] at answer
    rw [spends]
    exact ⟨earlier, check, checksEq, answer⟩

/-- A locking script that only checks, and a second checker that refuses every
other script. -/
theorem verifyScripts_asks_for_locking_of_bare_check :
    let locking : Script := ⟨[0xac]⟩
    let unlocking : Script := ⟨[0x01, 0x30, 0x01, 0x02]⟩
    let check : SignatureCheck := ⟨[0x30], [0x02], locking⟩
    let checker : SignatureChecker := fun asked =>
      .ok (asked.signature == [0x30])
    let other : SignatureChecker := fun asked =>
      if asked.scriptCode = locking then checker asked
      else .error .verificationFailed
    check ∈ (runScripts checker unlocking locking).2.checks ∧
      check.scriptCode = locking ∧
      (∀ signature publicKey : Bytes,
        checker ⟨signature, publicKey, locking⟩ =
          other ⟨signature, publicKey, locking⟩) ∧
      verifyScripts checker unlocking locking =
        verifyScripts other unlocking locking ∧
      locking.elements = .ok ([] ++ [.op .checkSig]) ∧
      verifyScripts checker unlocking locking = .ok true ∧
      ∃ earlier last,
        (runScripts checker unlocking locking).2.checks = earlier ++ [last] ∧
          checker last = .ok true := by
  intro locking unlocking check checker other
  have asked : check ∈ (runScripts checker unlocking locking).2.checks := by
    decide
  have agree (signature publicKey : Bytes) :
      checker ⟨signature, publicKey, locking⟩ =
        other ⟨signature, publicKey, locking⟩ := (if_pos rfl).symm
  have ends : locking.elements = .ok ([] ++ [.op .checkSig]) := by decide
  have verified : verifyScripts checker unlocking locking = .ok true := by
    decide
  obtain ⟨inName, alike, lastAccepted⟩ :=
    verifyScripts_asks_for_locking unlocking locking
  exact ⟨asked, inName checker check asked, agree, alike checker other agree,
    ends, verified, lastAccepted checker [] ends verified⟩

end Pair

end CoinSpend
