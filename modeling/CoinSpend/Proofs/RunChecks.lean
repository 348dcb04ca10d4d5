import CoinSpend.Interpreter

/-!
# A run depends on the checker only through its checks

The machine keeps a list of the checks that it asks for.  Nothing else of a
checker reaches a run: two checkers that answer alike what was asked end it in
the same way, on the same stack and with the same list.
-/

namespace CoinSpend

namespace Machine

variable {checker other : SignatureChecker} {scriptCode : Script}
  {machine next : Machine}

/-- How a script ends whose last operation is a signature check. -/
def afterCheck (rest : List Bytes) (checks : List SignatureCheck) :
    Except Error Bool → Outcome
  | .ok valid => (.ok true, ⟨truthBytes valid :: rest, checks⟩)
  | .error error => (.error error, ⟨rest, checks⟩)

theorem execute_checkSig {scriptCode : Script} {signature publicKey : Bytes}
    {rest : List Bytes} {checks : List SignatureCheck} :
    execute checker scriptCode ⟨publicKey :: signature :: rest, checks⟩
        (.op .checkSig) =
      afterCheck rest (checks ++ [⟨signature, publicKey, scriptCode⟩])
        (checker ⟨signature, publicKey, scriptCode⟩) := by
  change (match checker ⟨signature, publicKey, scriptCode⟩ with
    | .ok valid => _
    | .error error => _) = _
  cases checker ⟨signature, publicKey, scriptCode⟩ <;> rfl

/-- Every step but one is the same for all checkers and asks for nothing.  The
one step asks for a single check of the two topmost items, in the name of the
script that runs. -/
theorem execute_cases (scriptCode : Script) (stack : List Bytes)
    (element : ScriptElement) :
    (∃ ending after, ∀ checker checks,
      execute checker scriptCode ⟨stack, checks⟩ element =
        (ending, ⟨after, checks⟩)) ∨
    ∃ signature publicKey rest, element = .op .checkSig ∧
      stack = publicKey :: signature :: rest ∧ ∀ checker checks,
        execute checker scriptCode ⟨stack, checks⟩ element =
          afterCheck rest (checks ++ [⟨signature, publicKey, scriptCode⟩])
            (checker ⟨signature, publicKey, scriptCode⟩) := by
  cases element with
  | push data =>
      refine .inl ?_
      by_cases long : Script.maxPushSize < data.length
      · exact ⟨_, stack, fun _ _ => if_pos long⟩
      · exact ⟨.ok true, data :: stack, fun _ _ => if_neg long⟩
  | op code =>
      cases code with
      | checkSig =>
          rcases stack with _ | ⟨publicKey, _ | ⟨signature, rest⟩⟩
          · exact .inl ⟨.ok false, [], fun _ _ => rfl⟩
          · exact .inl ⟨.ok false, [publicKey], fun _ _ => rfl⟩
          · refine .inr ⟨signature, publicKey, rest, rfl, rfl, ?_⟩
            exact fun checker checks => execute_checkSig
      | dup =>
          rcases stack with _ | ⟨top, rest⟩
          · exact .inl ⟨.ok false, [], fun _ _ => rfl⟩
          · exact .inl ⟨.ok true, top :: top :: rest, fun _ _ => rfl⟩
      | hash160 =>
          rcases stack with _ | ⟨top, rest⟩
          · exact .inl ⟨.ok false, [], fun _ _ => rfl⟩
          · exact .inl ⟨.ok true, (CoinSpend.hash160 top).toBytes :: rest,
              fun _ _ => rfl⟩
      | equal =>
          rcases stack with _ | ⟨second, _ | ⟨first, rest⟩⟩
          · exact .inl ⟨.ok false, [], fun _ _ => rfl⟩
          · exact .inl ⟨.ok false, [second], fun _ _ => rfl⟩
          · exact .inl ⟨.ok true, truthBytes (first == second) :: rest,
              fun _ _ => rfl⟩
      | equalVerify =>
          rcases stack with _ | ⟨second, _ | ⟨first, rest⟩⟩
          · exact .inl ⟨.ok false, [], fun _ _ => rfl⟩
          · exact .inl ⟨.ok false, [second], fun _ _ => rfl⟩
          · exact .inl ⟨.ok (first == second), rest, fun _ _ => rfl⟩
      | other byte =>
          exact .inl ⟨.error (.script (.unsupportedOpcode byte)), stack,
            fun _ _ => rfl⟩

theorem checks_afterCheck (rest : List Bytes) (checks : List SignatureCheck)
    (answer : Except Error Bool) :
    (afterCheck rest checks answer).2.checks = checks := by
  cases answer <;> rfl

/-- Only a signature check asks for something, and it asks in the name of the
script that runs. -/
theorem exists_asked_execute (checker : SignatureChecker) (scriptCode : Script)
    (machine : Machine) (element : ScriptElement) :
    ∃ asked : List SignatureCheck,
      (execute checker scriptCode machine element).2.checks =
          machine.checks ++ asked ∧
        ∀ check ∈ asked,
          check.scriptCode = scriptCode ∧ element = .op .checkSig := by
  obtain ⟨stack, checks⟩ := machine
  rcases execute_cases scriptCode stack element with
    ⟨ending, after, quiet⟩ | ⟨signature, publicKey, rest, elementEq, -, asks⟩
  · refine ⟨[], ?_, List.forall_mem_nil _⟩
    rw [quiet, List.append_nil]
  · refine ⟨[⟨signature, publicKey, scriptCode⟩], ?_, ?_⟩
    · rw [asks, checks_afterCheck]
    · exact List.forall_mem_singleton.mpr ⟨rfl, elementEq⟩

/-- How a run goes on after the outcome of its first element. -/
def continued (rest : Machine → Outcome) : Outcome → Outcome
  | (.ok true, next) =>
      if maxDepth < next.stack.length then
        (.error (.script .stackOverflow), next)
      else rest next
  | stopped => stopped

theorem run_cons (element : ScriptElement) (elements : List ScriptElement) :
    run checker scriptCode machine (element :: elements) =
      continued (fun next => run checker scriptCode next elements)
        (execute checker scriptCode machine element) := by
  rw [run]
  rcases execute checker scriptCode machine element with
    ⟨error | _ | _, next⟩ <;> rfl

theorem run_cons_of_success {element : ScriptElement}
    {elements : List ScriptElement}
    (executed : execute checker scriptCode machine element = (.ok true, next))
    (shallow : next.stack.length ≤ maxDepth) :
    run checker scriptCode machine (element :: elements) =
      run checker scriptCode next elements := by
  rw [run_cons, executed]
  exact if_neg (Nat.not_lt.mpr shallow)

theorem run_cons_of_overflow {element : ScriptElement}
    (executed : execute checker scriptCode machine element = (.ok true, next))
    (deep : maxDepth < next.stack.length) (elements : List ScriptElement) :
    run checker scriptCode machine (element :: elements) =
      (.error (.script .stackOverflow), next) := by
  rw [run_cons, executed]
  exact if_pos deep

/-- Whether a run goes on is settled by the outcome of its first element. -/
theorem continued_cases (outcome : Outcome) :
    (∃ ending, ∀ rest, continued rest outcome = (ending, outcome.2)) ∨
      ∀ rest, continued rest outcome = rest outcome.2 := by
  rcases outcome with ⟨error | _ | _, next⟩
  · exact .inl ⟨.error error, fun _ => rfl⟩
  · exact .inl ⟨.ok false, fun _ => rfl⟩
  · by_cases deep : maxDepth < next.stack.length
    · exact .inl ⟨_, fun _ => if_pos deep⟩
    · exact .inr fun _ => if_neg deep

theorem exists_asked_run (checker : SignatureChecker) (scriptCode : Script)
    (machine : Machine) (elements : List ScriptElement) :
    ∃ asked : List SignatureCheck,
      (run checker scriptCode machine elements).2.checks =
          machine.checks ++ asked ∧
        ∀ check ∈ asked,
          check.scriptCode = scriptCode ∧ .op .checkSig ∈ elements := by
  induction elements generalizing machine with
  | nil => exact ⟨[], (List.append_nil _).symm, List.forall_mem_nil _⟩
  | cons element elements ih =>
      obtain ⟨asked, stepChecks, byStep⟩ :=
        exists_asked_execute checker scriptCode machine element
      have byFirst : ∀ check ∈ asked, check.scriptCode = scriptCode ∧
          .op .checkSig ∈ element :: elements := by
        intro check checkMem
        obtain ⟨inName, rfl⟩ := byStep check checkMem
        exact ⟨inName, List.mem_cons_self⟩
      rw [run_cons]
      rcases continued_cases (execute checker scriptCode machine element) with
        ⟨ending, stops⟩ | goesOn
      · rw [stops]
        exact ⟨asked, stepChecks, byFirst⟩
      · obtain ⟨more, restChecks, byRest⟩ :=
          ih (execute checker scriptCode machine element).2
        rw [goesOn]
        refine ⟨asked ++ more, ?_, fun check checkMem => ?_⟩
        · rw [restChecks, stepChecks, List.append_assoc]
        · rcases List.mem_append.mp checkMem with inFirst | inRest
          · exact byFirst check inFirst
          · obtain ⟨inName, later⟩ := byRest check inRest
            exact ⟨inName, List.mem_cons_of_mem _ later⟩

/-- Nothing is ever taken off the list of checks. -/
theorem checks_prefix_run (elements : List ScriptElement) :
    machine.checks <+: (run checker scriptCode machine elements).2.checks := by
  obtain ⟨asked, checksEq, -⟩ :=
    exists_asked_run checker scriptCode machine elements
  exact ⟨asked, checksEq.symm⟩

theorem execute_congr {element : ScriptElement}
    (agree : ∀ check ∈ (execute checker scriptCode machine element).2.checks,
      checker check = other check) :
    execute other scriptCode machine element =
      execute checker scriptCode machine element := by
  obtain ⟨stack, checks⟩ := machine
  rcases execute_cases scriptCode stack element with
    ⟨ending, after, quiet⟩ | ⟨signature, publicKey, rest, -, -, asks⟩
  · rw [quiet, quiet]
  · rw [asks, checks_afterCheck] at agree
    rw [asks, asks, agree _ (List.mem_append_right _ List.mem_cons_self)]

theorem run_congr {elements : List ScriptElement}
    (agree : ∀ check ∈ (run checker scriptCode machine elements).2.checks,
      checker check = other check) :
    run other scriptCode machine elements =
      run checker scriptCode machine elements := by
  induction elements generalizing machine with
  | nil => rfl
  | cons element elements ih =>
      rw [run_cons] at agree
      rw [run_cons, run_cons]
      rcases continued_cases (execute checker scriptCode machine element) with
        ⟨ending, stops⟩ | goesOn
      · rw [stops] at agree
        rw [execute_congr agree, stops, stops]
      · rw [goesOn] at agree
        -- what a step asks for is still on the list at the end of the run
        have stepAgree : ∀ check ∈
            (execute checker scriptCode machine element).2.checks,
            checker check = other check :=
          fun check asked =>
            agree check ((checks_prefix_run elements).subset asked)
        rw [execute_congr stepAgree, goesOn, goesOn]
        exact ih agree

theorem checks_prefix_eval (script : Script) :
    machine.checks <+: (eval checker machine script).2.checks := by
  unfold eval
  split
  · exact List.prefix_rfl
  · split
    · exact List.prefix_rfl
    · exact checks_prefix_run _

theorem eval_congr {script : Script}
    (agree : ∀ check ∈ (eval checker machine script).2.checks,
      checker check = other check) :
    eval other machine script = eval checker machine script := by
  unfold eval at agree ⊢
  split
  · rfl
  · rename_i sized
    rw [if_neg sized] at agree
    cases parsed : script.elements with
    | error error => rfl
    | ok elements =>
        rw [parsed] at agree
        exact run_congr agree

end Machine

/-- The outcome of a pair of scripts whose second one ends as given. -/
def judged : Outcome → Outcome
  | (.ok true, final) => (.ok final.verdict, final)
  | stopped => stopped

/-- A pair of scripts whose first one ends as given. -/
def unlocked (checker : SignatureChecker) (locking : Script) :
    Outcome → Outcome
  | (.ok true, next) => judged (next.eval checker locking)
  | stopped => stopped

theorem runScripts_eq_unlocked {checker : SignatureChecker}
    {unlocking : Script} (pushes : unlocking.isPushOnly = true)
    (locking : Script) :
    runScripts checker unlocking locking =
      unlocked checker locking ((Machine.mk [] []).eval checker unlocking) := by
  rw [runScripts, if_pos pushes]
  rcases Machine.eval checker ⟨[], []⟩ unlocking with ⟨error | _ | _, next⟩
  · rfl
  · rfl
  · simp only [unlocked]
    rcases next.eval checker locking with ⟨error | _ | _, final⟩ <;> rfl

theorem machine_judged (outcome : Outcome) : (judged outcome).2 = outcome.2 := by
  rcases outcome with ⟨error | _ | _, final⟩ <;> rfl

theorem checks_judged (outcome : Outcome) :
    (judged outcome).2.checks = outcome.2.checks :=
  congrArg Machine.checks (machine_judged outcome)

section Pair

variable {checker other : SignatureChecker} {unlocking locking : Script}

theorem checks_prefix_unlocked (outcome : Outcome) :
    outcome.2.checks <+: (unlocked checker locking outcome).2.checks := by
  rcases outcome with ⟨error | _ | _, next⟩
  · exact List.prefix_rfl
  · exact List.prefix_rfl
  · rw [unlocked, checks_judged]
    exact Machine.checks_prefix_eval locking

theorem unlocked_congr {outcome : Outcome}
    (agree : ∀ check ∈ (unlocked checker locking outcome).2.checks,
      checker check = other check) :
    unlocked other locking outcome = unlocked checker locking outcome := by
  rcases outcome with ⟨error | _ | _, next⟩
  · rfl
  · rfl
  · rw [unlocked, checks_judged] at agree
    rw [unlocked, unlocked, Machine.eval_congr agree]

/-- Checkers that give the same answers to all checks of a run give the same
run. -/
theorem runScripts_congr
    (agree : ∀ check ∈ (runScripts checker unlocking locking).2.checks,
      checker check = other check) :
    runScripts other unlocking locking =
      runScripts checker unlocking locking := by
  by_cases pushes : unlocking.isPushOnly = true
  · rw [runScripts_eq_unlocked pushes] at agree
    rw [runScripts_eq_unlocked pushes, runScripts_eq_unlocked pushes]
    have unlockingAgree : ∀ check ∈
        (Machine.eval checker ⟨[], []⟩ unlocking).2.checks,
        checker check = other check :=
      fun check asked =>
        agree check ((checks_prefix_unlocked _).subset asked)
    rw [Machine.eval_congr unlockingAgree]
    exact unlocked_congr agree
  · rw [runScripts, runScripts, if_neg pushes, if_neg pushes]

end Pair

end CoinSpend
