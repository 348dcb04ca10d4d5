import CoinSpend.Proofs.RunChecks

/-!
# How far the stack can grow

An execution changes the stack by one push or one pop at a time.  The stacks on
the way are listed here, also those in the middle of an operation, and all of
them keep the limits: an item is as large as a push may be at most, and there is
one item too many only where the execution ends for that reason.
-/

namespace CoinSpend

/-- The first stack becomes the last one by single pushes and pops, and the
stacks after the first one are those listed. -/
inductive StackPath : List Bytes → List (List Bytes) → List Bytes → Prop
  | done (stack : List Bytes) : StackPath stack [] stack
  | push {stack : List Bytes} {path : List (List Bytes)} {last : List Bytes}
      (item : Bytes) (rest : StackPath (item :: stack) path last) :
      StackPath stack ((item :: stack) :: path) last
  | pop {stack : List Bytes} {path : List (List Bytes)} {last : List Bytes}
      (item : Bytes) (rest : StackPath stack path last) :
      StackPath (item :: stack) (stack :: path) last

namespace StackPath

variable {first middle last : List Bytes} {path more : List (List Bytes)}

theorem append (begins : StackPath first path middle)
    (goesOn : StackPath middle more last) :
    StackPath first (path ++ more) last := by
  induction begins with
  | done stack => exact goesOn
  | push item rest ih => exact .push item (ih goesOn)
  | pop item rest ih => exact .pop item (ih goesOn)

theorem last_mem (leads : StackPath first path last) :
    last ∈ first :: path := by
  induction leads with
  | done stack => exact List.mem_cons_self
  | push item rest ih => exact List.mem_cons_of_mem _ ih
  | pop item rest ih => exact List.mem_cons_of_mem _ ih

/-- The stacks on the way when some items are taken off. -/
def pops : (items rest : List Bytes) → List (List Bytes)
  | [], _ => []
  | _ :: items, rest => (items ++ rest) :: pops items rest

theorem pops_leads (items rest : List Bytes) :
    StackPath (items ++ rest) (pops items rest) rest := by
  induction items with
  | nil => exact .done rest
  | cons item items ih => exact .pop item ih

theorem suffix_of_mem_pops {items rest stack : List Bytes}
    (passed : stack ∈ pops items rest) : stack <:+ items ++ rest := by
  induction items with
  | nil => cases passed
  | cons item items ih =>
      have shorter : items ++ rest <:+ item :: items ++ rest :=
        List.suffix_cons item (items ++ rest)
      rcases List.mem_cons.mp passed with rfl | later
      · exact shorter
      · exact (ih later).trans shorter

end StackPath

theorem length_truthBytes_le (truth : Bool) : (truthBytes truth).length ≤ 1 := by
  cases truth <;> decide

namespace Machine

/-- The stacks that one operation leads to. -/
def opPath (checker : SignatureChecker) (scriptCode : Script)
    (stack : List Bytes) (code : Opcode) : List (List Bytes) :=
  match code, stack with
  | .dup, top :: rest => [top :: top :: rest]
  | .hash160, top :: rest => [rest, (hash160 top).toBytes :: rest]
  | .equal, second :: first :: rest =>
      [first :: rest, rest, truthBytes (first == second) :: rest]
  | .equalVerify, _ :: first :: rest => [first :: rest, rest]
  | .checkSig, publicKey :: signature :: rest =>
      match checker ⟨signature, publicKey, scriptCode⟩ with
      | .ok valid => [signature :: rest, rest, truthBytes valid :: rest]
      | .error _ => [signature :: rest, rest]
  | _, _ => []

/-- The stacks that one element leads to. -/
def elementPath (checker : SignatureChecker) (scriptCode : Script)
    (stack : List Bytes) : ScriptElement → List (List Bytes)
  | .push data =>
      if Script.maxPushSize < data.length then [] else [data :: stack]
  | .op code => opPath checker scriptCode stack code

/-- The stacks that the elements of a script lead to. -/
def runPath (checker : SignatureChecker) (scriptCode : Script) :
    Machine → List ScriptElement → List (List Bytes)
  | _, [] => []
  | machine, element :: elements =>
      elementPath checker scriptCode machine.stack element ++
        match execute checker scriptCode machine element with
        | (.ok true, next) =>
            if maxDepth < next.stack.length then []
            else runPath checker scriptCode next elements
        | _ => []

/-- The stacks that a script leads to. -/
def evalPath (checker : SignatureChecker) (machine : Machine)
    (script : Script) : List (List Bytes) :=
  if Script.maxSize < script.size then []
  else
    match script.elements with
    | .error _ => []
    | .ok elements => runPath checker script machine elements

variable {checker : SignatureChecker} {scriptCode script : Script}
  {machine : Machine} {stack : List Bytes} {elements : List ScriptElement}

/-- An element takes some items off the stack.  Then it is done, or it succeeds by
pushing one item, which was there before or is small. -/
theorem elementPath_cases (checker : SignatureChecker) (scriptCode : Script)
    (machine : Machine) (element : ScriptElement) :
    ∃ popped rest, machine.stack = popped ++ rest ∧
      (elementPath checker scriptCode machine.stack element =
            StackPath.pops popped rest ∧
          (execute checker scriptCode machine element).2.stack = rest ∨
        ∃ item, (item ∈ machine.stack ∨ item.length ≤ 520) ∧
          elementPath checker scriptCode machine.stack element =
            StackPath.pops popped rest ++ [item :: rest] ∧
          (execute checker scriptCode machine element).1 = .ok true ∧
          (execute checker scriptCode machine element).2.stack =
            item :: rest) := by
  obtain ⟨stack, checks⟩ := machine
  have truthShort (truth : Bool) : (truthBytes truth).length ≤ 520 :=
    Nat.le_trans (length_truthBytes_le truth) (by decide)
  cases element with
  | push data =>
      rw [elementPath, execute]
      split
      · exact ⟨[], stack, rfl, .inl ⟨rfl, rfl⟩⟩
      · rename_i short
        exact ⟨[], stack, rfl,
          .inr ⟨data, .inr (Nat.not_lt.mp short), rfl, rfl, rfl⟩⟩
  | op code =>
      cases code with
      | dup =>
          rcases stack with _ | ⟨top, rest⟩
          · exact ⟨[], [], rfl, .inl ⟨rfl, rfl⟩⟩
          · exact ⟨[], top :: rest, rfl,
              .inr ⟨top, .inl List.mem_cons_self, rfl, rfl, rfl⟩⟩
      | hash160 =>
          rcases stack with _ | ⟨top, rest⟩
          · exact ⟨[], [], rfl, .inl ⟨rfl, rfl⟩⟩
          · have hashShort : (CoinSpend.hash160 top).toBytes.length ≤ 520 := by
              rw [FixedBytes.length_toBytes]
              decide
            exact ⟨[top], rest, rfl, .inr ⟨_, .inr hashShort, rfl, rfl, rfl⟩⟩
      | equal =>
          rcases stack with _ | ⟨second, _ | ⟨first, rest⟩⟩
          · exact ⟨[], [], rfl, .inl ⟨rfl, rfl⟩⟩
          · exact ⟨[], [second], rfl, .inl ⟨rfl, rfl⟩⟩
          · exact ⟨[second, first], rest, rfl,
              .inr ⟨_, .inr (truthShort (first == second)), rfl, rfl, rfl⟩⟩
      | equalVerify =>
          rcases stack with _ | ⟨second, _ | ⟨first, rest⟩⟩
          · exact ⟨[], [], rfl, .inl ⟨rfl, rfl⟩⟩
          · exact ⟨[], [second], rfl, .inl ⟨rfl, rfl⟩⟩
          · exact ⟨[second, first], rest, rfl, .inl ⟨rfl, rfl⟩⟩
      | checkSig =>
          rcases stack with _ | ⟨publicKey, _ | ⟨signature, rest⟩⟩
          · exact ⟨[], [], rfl, .inl ⟨rfl, rfl⟩⟩
          · exact ⟨[], [publicKey], rfl, .inl ⟨rfl, rfl⟩⟩
          · refine ⟨[publicKey, signature], rest, rfl, ?_⟩
            rw [execute_checkSig, elementPath, opPath]
            cases checker ⟨signature, publicKey, scriptCode⟩ with
            | error error => exact .inl ⟨rfl, rfl⟩
            | ok valid =>
                exact .inr ⟨_, .inr (truthShort valid), rfl, rfl, rfl⟩
      | other byte => exact ⟨[], stack, rfl, .inl ⟨rfl, rfl⟩⟩

theorem elementPath_leads (checker : SignatureChecker) (scriptCode : Script)
    (machine : Machine) (element : ScriptElement) :
    StackPath machine.stack
      (elementPath checker scriptCode machine.stack element)
      (execute checker scriptCode machine element).2.stack := by
  obtain ⟨popped, rest, stackEq, ⟨pathEq, lastEq⟩ |
    ⟨item, -, pathEq, -, lastEq⟩⟩ :=
    elementPath_cases checker scriptCode machine element
  · rw [pathEq, lastEq, stackEq]
    exact StackPath.pops_leads popped rest
  · rw [pathEq, lastEq, stackEq]
    exact (StackPath.pops_leads popped rest).append (.push item (.done _))

/-- A run stops after its first element, because that fails or because the
stack has grown too deep, or goes on with the others. -/
theorem run_cons_cases (checker : SignatureChecker) (scriptCode : Script)
    (machine : Machine) (element : ScriptElement)
    (elements : List ScriptElement) :
    (∃ ending next,
      execute checker scriptCode machine element = (ending, next) ∧
        ending ≠ .ok true ∧
        run checker scriptCode machine (element :: elements) = (ending, next) ∧
        runPath checker scriptCode machine (element :: elements) =
          elementPath checker scriptCode machine.stack element) ∨
    (∃ next,
      execute checker scriptCode machine element = (.ok true, next) ∧
        maxDepth < next.stack.length ∧
        run checker scriptCode machine (element :: elements) =
          (.error (.script .stackOverflow), next) ∧
        runPath checker scriptCode machine (element :: elements) =
          elementPath checker scriptCode machine.stack element) ∨
    ∃ next,
      execute checker scriptCode machine element = (.ok true, next) ∧
        next.stack.length ≤ maxDepth ∧
        run checker scriptCode machine (element :: elements) =
          run checker scriptCode next elements ∧
        runPath checker scriptCode machine (element :: elements) =
          elementPath checker scriptCode machine.stack element ++
            runPath checker scriptCode next elements := by
  rw [run_cons, runPath]
  rcases executed : execute checker scriptCode machine element with
    ⟨error | _ | _, next⟩
  · exact .inl ⟨_, next, rfl, nofun, rfl, List.append_nil _⟩
  · exact .inl ⟨_, next, rfl, nofun, rfl, List.append_nil _⟩
  · by_cases deep : maxDepth < next.stack.length
    · refine .inr (.inl ⟨next, rfl, deep, if_pos deep, ?_⟩)
      simp only [if_pos deep, List.append_nil]
    · refine .inr (.inr ⟨next, rfl, Nat.not_lt.mp deep, if_neg deep, ?_⟩)
      simp only [if_neg deep]

theorem runPath_leads (checker : SignatureChecker) (scriptCode : Script)
    (machine : Machine) (elements : List ScriptElement) :
    StackPath machine.stack (runPath checker scriptCode machine elements)
      (run checker scriptCode machine elements).2.stack := by
  induction elements generalizing machine with
  | nil => exact .done machine.stack
  | cons element elements ih =>
      have leads := elementPath_leads checker scriptCode machine element
      rcases run_cons_cases checker scriptCode machine element elements with
        ⟨ending, next, executed, -, runEq, pathEq⟩ |
        ⟨next, executed, -, runEq, pathEq⟩ | ⟨next, executed, -, runEq, pathEq⟩
      · rw [runEq, pathEq]
        rwa [executed] at leads
      · rw [runEq, pathEq]
        rwa [executed] at leads
      · rw [runEq, pathEq]
        rw [executed] at leads
        exact leads.append (ih next)

/-- A run that has come to the end of some elements has gone the way that these
lead to. -/
theorem runPath_prefix (checker : SignatureChecker) (scriptCode : Script)
    (machine : Machine) (front back : List ScriptElement) :
    runPath checker scriptCode machine front <+:
      runPath checker scriptCode machine (front ++ back) := by
  induction front generalizing machine with
  | nil => exact List.nil_prefix
  | cons element front ih =>
      rw [List.cons_append, runPath, runPath, List.prefix_append_right_inj]
      rcases execute checker scriptCode machine element with
        ⟨error | _ | _, next⟩
      · exact List.prefix_rfl
      · exact List.prefix_rfl
      · by_cases deep : maxDepth < next.stack.length
        · simp only [if_pos deep]
          exact List.prefix_rfl
        · simp only [if_neg deep]
          exact ih next

theorem evalPath_leads (checker : SignatureChecker) (machine : Machine)
    (script : Script) :
    StackPath machine.stack (evalPath checker machine script)
      (eval checker machine script).2.stack := by
  unfold evalPath eval
  split
  · exact .done machine.stack
  · cases script.elements with
    | error error => exact .done machine.stack
    | ok elements => exact runPath_leads checker script machine elements

/-- The stack between two elements is on the way. -/
theorem stack_run_mem_evalPath (checker : SignatureChecker)
    (machine : Machine) {front back : List ScriptElement}
    (sized : script.size ≤ 10000)
    (parsed : script.elements = .ok (front ++ back)) :
    (run checker script machine front).2.stack ∈
      machine.stack :: evalPath checker machine script := by
  have fits : ¬ Script.maxSize < script.size := Nat.not_lt.mpr sized
  rw [evalPath, if_neg fits, parsed]
  have begun := runPath_prefix checker script machine front back
  rcases List.mem_cons.mp (runPath_leads checker script machine front).last_mem
    with unchanged | passed
  · rw [unchanged]
    exact List.mem_cons_self
  · exact List.mem_cons_of_mem _ (begun.subset passed)

/-- No item is too large, and there is one too many only in an execution that
ends for this reason. -/
structure Bounded (ending : Except Error Bool) (stack : List Bytes) : Prop where
  length_le : stack.length ≤ 1001
  items_le : ∀ item ∈ stack, item.length ≤ 520
  overflows : stack.length = 1001 → ending = .error (.script .stackOverflow)

theorem bounded_of_shallow {ending : Except Error Bool}
    (shallow : stack.length ≤ 1000)
    (short : ∀ item ∈ stack, item.length ≤ 520) : Bounded ending stack where
  length_le := by omega
  items_le := short
  overflows full := by omega

namespace Bounded

variable {ending other : Except Error Bool}

theorem shallow (bounded : Bounded ending stack)
    (fits : ending ≠ .error (.script .stackOverflow)) :
    stack.length ≤ 1000 := by
  have full := mt bounded.overflows fits
  have limit := bounded.length_le
  omega

theorem changed (bounded : Bounded ending stack)
    (keeps : ending = .error (.script .stackOverflow) →
      other = .error (.script .stackOverflow)) :
    Bounded other stack :=
  ⟨bounded.length_le, bounded.items_le,
    fun full => keeps (bounded.overflows full)⟩

end Bounded

theorem elementPath_bounded (checker : SignatureChecker) (scriptCode : Script)
    (element : ScriptElement) (shallow : machine.stack.length ≤ 1000)
    (short : ∀ item ∈ machine.stack, item.length ≤ 520) :
    ∀ stack ∈ elementPath checker scriptCode machine.stack element,
      (∀ item ∈ stack, item.length ≤ 520) ∧
        (stack.length ≤ 1000 ∨ stack.length = 1001 ∧
          (execute checker scriptCode machine element).1 = .ok true ∧
          (execute checker scriptCode machine element).2.stack = stack) := by
  intro stack passed
  obtain ⟨popped, rest, stackEq, shape⟩ :=
    elementPath_cases checker scriptCode machine element
  have below {other : List Bytes} (suffix : other <:+ machine.stack) :
      (∀ item ∈ other, item.length ≤ 520) ∧ other.length ≤ 1000 :=
    ⟨fun item itemMem => short item (suffix.subset itemMem),
      Nat.le_trans suffix.length_le shallow⟩
  have popsBelow (mem : stack ∈ StackPath.pops popped rest) :
      (∀ item ∈ stack, item.length ≤ 520) ∧ stack.length ≤ 1000 :=
    below (stackEq ▸ StackPath.suffix_of_mem_pops mem)
  rcases shape with ⟨pathEq, -⟩ | ⟨item, small, pathEq, succeeds, lastEq⟩
  · rw [pathEq] at passed
    exact (popsBelow passed).imp_right .inl
  · rw [pathEq, List.mem_append, List.mem_singleton] at passed
    rcases passed with onTheWay | rfl
    · exact (popsBelow onTheWay).imp_right .inl
    · obtain ⟨restShort, restShallow⟩ :=
        below (stackEq ▸ List.suffix_append popped rest)
      have itemShort : item.length ≤ 520 := small.elim (short item) id
      refine ⟨List.forall_mem_cons.mpr ⟨itemShort, restShort⟩, ?_⟩
      rw [List.length_cons]
      by_cases full : rest.length = 1000
      · exact .inr ⟨by omega, succeeds, lastEq⟩
      · exact .inl (by omega)

theorem runPath_bounded
    (shallow : machine.stack.length ≤ 1000)
    (short : ∀ item ∈ machine.stack, item.length ≤ 520) :
    ∀ stack ∈ runPath checker scriptCode machine elements,
      Bounded (run checker scriptCode machine elements).1 stack := by
  induction elements generalizing machine with
  | nil => exact List.forall_mem_nil _
  | cons element elements ih =>
      have step := elementPath_bounded checker scriptCode element shallow short
      rcases run_cons_cases checker scriptCode machine element elements with
        ⟨ending, next, executed, stops, runEq, pathEq⟩ |
        ⟨next, executed, deep, runEq, pathEq⟩ |
        ⟨next, executed, shallowNext, runEq, pathEq⟩
      · rw [runEq, pathEq]
        intro stack passed
        obtain ⟨stackShort, stackShallow | ⟨-, succeeds, -⟩⟩ := step stack passed
        · exact bounded_of_shallow stackShallow stackShort
        · rw [executed] at succeeds
          exact absurd succeeds stops
      · rw [runEq, pathEq]
        intro stack passed
        obtain ⟨stackShort, stackShallow | ⟨full, -⟩⟩ := step stack passed
        · exact bounded_of_shallow stackShallow stackShort
        · exact ⟨Nat.le_of_eq full, stackShort, fun _ => rfl⟩
      · rw [runEq, pathEq]
        have leads := elementPath_leads checker scriptCode machine element
        rw [executed] at leads step
        have shortNext : ∀ item ∈ next.stack, item.length ≤ 520 := by
          rcases List.mem_cons.mp leads.last_mem with unchanged | passed
          · rwa [unchanged]
          · exact (step _ passed).1
        intro stack passed
        rcases List.mem_append.mp passed with first | later
        · obtain ⟨stackShort, stackShallow | ⟨-, -, rfl⟩⟩ := step stack first
          · exact bounded_of_shallow stackShallow stackShort
          · exact bounded_of_shallow shallowNext stackShort
        · exact ih shallowNext shortNext stack later

theorem evalPath_bounded
    (shallow : machine.stack.length ≤ 1000)
    (short : ∀ item ∈ machine.stack, item.length ≤ 520) :
    ∀ stack ∈ evalPath checker machine script,
      Bounded (eval checker machine script).1 stack := by
  unfold evalPath eval
  split
  · exact List.forall_mem_nil _
  · cases script.elements with
    | error error => exact List.forall_mem_nil _
    | ok elements => exact runPath_bounded shallow short

theorem eval_bounded
    (shallow : machine.stack.length ≤ 1000)
    (short : ∀ item ∈ machine.stack, item.length ≤ 520) :
    Bounded (eval checker machine script).1
      (eval checker machine script).2.stack := by
  have leads := evalPath_leads checker machine script
  rcases List.mem_cons.mp leads.last_mem with unchanged | passed
  · rw [unchanged]
    exact bounded_of_shallow shallow short
  · exact evalPath_bounded shallow short _ passed

end Machine

/-- The stacks that a locking script leads to after an unlocking one that ends as
given. -/
def lockingPath (checker : SignatureChecker) (locking : Script) :
    Outcome → List (List Bytes)
  | (.ok true, next) => next.evalPath checker locking
  | _ => []

/-- The stacks that a pair of scripts leads to. -/
def scriptsPath (checker : SignatureChecker) (unlocking locking : Script) :
    List (List Bytes) :=
  let start := Machine.mk [] []
  if unlocking.isPushOnly then
    start.evalPath checker unlocking ++
      lockingPath checker locking (start.eval checker unlocking)
  else []

section Pair

variable {checker : SignatureChecker} {unlocking locking : Script}

theorem judged_of_error {outcome : Outcome} {error : Error}
    (fails : outcome.1 = .error error) : (judged outcome).1 = .error error := by
  obtain ⟨ending, final⟩ := outcome
  cases fails
  rfl

theorem unlocked_of_error {outcome : Outcome} {error : Error}
    (fails : outcome.1 = .error error) :
    (unlocked checker locking outcome).1 = .error error := by
  obtain ⟨ending, next⟩ := outcome
  cases fails
  rfl

theorem lockingPath_leads (outcome : Outcome) :
    StackPath outcome.2.stack (lockingPath checker locking outcome)
      (unlocked checker locking outcome).2.stack := by
  rcases outcome with ⟨error | _ | _, next⟩
  · exact .done next.stack
  · exact .done next.stack
  · rw [unlocked, machine_judged]
    exact Machine.evalPath_leads checker next locking

theorem scriptsPath_leads (checker : SignatureChecker)
    (unlocking locking : Script) :
    StackPath [] (scriptsPath checker unlocking locking)
      (runScripts checker unlocking locking).2.stack := by
  unfold scriptsPath
  by_cases pushes : unlocking.isPushOnly = true
  · rw [if_pos pushes, runScripts_eq_unlocked pushes]
    exact (Machine.evalPath_leads checker ⟨[], []⟩ unlocking).append
      (lockingPath_leads _)
  · rw [if_neg pushes, runScripts, if_neg pushes]
    exact .done []

theorem lockingPath_bounded {outcome : Outcome}
    (bounded : Machine.Bounded outcome.1 outcome.2.stack) :
    ∀ stack ∈ lockingPath checker locking outcome,
      Machine.Bounded (unlocked checker locking outcome).1 stack := by
  rcases outcome with ⟨error | _ | _, next⟩
  · exact List.forall_mem_nil _
  · exact List.forall_mem_nil _
  · intro stack passed
    exact (Machine.evalPath_bounded (bounded.shallow nofun) bounded.items_le
      stack passed).changed judged_of_error

theorem scriptsPath_bounded :
    ∀ stack ∈ scriptsPath checker unlocking locking,
      Machine.Bounded (runScripts checker unlocking locking).1 stack := by
  unfold scriptsPath
  by_cases pushes : unlocking.isPushOnly = true
  · rw [if_pos pushes, runScripts_eq_unlocked pushes]
    have shallow : (Machine.mk [] []).stack.length ≤ 1000 := by decide
    have short : ∀ item ∈ (Machine.mk [] []).stack, item.length ≤ 520 :=
      List.forall_mem_nil _
    intro stack passed
    rcases List.mem_append.mp passed with first | later
    · exact (Machine.evalPath_bounded shallow short stack first).changed
        unlocked_of_error
    · exact lockingPath_bounded (Machine.eval_bounded shallow short) stack later
  · rw [if_neg pushes]
    exact List.forall_mem_nil _

theorem runScripts_bounded :
    Machine.Bounded (runScripts checker unlocking locking).1
      (runScripts checker unlocking locking).2.stack := by
  have leads := scriptsPath_leads checker unlocking locking
  rcases List.mem_cons.mp leads.last_mem with unchanged | passed
  · rw [unchanged]
    exact Machine.bounded_of_shallow (by decide) (List.forall_mem_nil _)
  · exact scriptsPath_bounded _ passed

end Pair

/-- An execution that starts with at most 1000 items of at most 520 bytes keeps
to these limits with every push and pop, and at its end.  Only an execution that
ends with a stack overflow has 1001 items.  Its way goes by single pushes and
pops through the stacks between its elements to the one at its end.  The same is
true of a pair of scripts, from the beginning of the first to the end of the
second. -/
theorem eval_within_limits (checker : SignatureChecker) :
    (∀ (machine : Machine) (script : Script), machine.stack.length ≤ 1000 →
      (∀ item ∈ machine.stack, item.length ≤ 520) →
        let outcome := machine.eval checker script
        let path := machine.evalPath checker script
        StackPath machine.stack path outcome.2.stack ∧
          (∀ front back, script.size ≤ 10000 →
            script.elements = .ok (front ++ back) →
              (machine.run checker script front).2.stack ∈
                machine.stack :: path) ∧
          (∀ stack ∈ path, Machine.Bounded outcome.1 stack) ∧
          Machine.Bounded outcome.1 outcome.2.stack) ∧
    ∀ unlocking locking : Script,
      let outcome := runScripts checker unlocking locking
      let path := scriptsPath checker unlocking locking
      StackPath [] path outcome.2.stack ∧
        (∀ stack ∈ path, Machine.Bounded outcome.1 stack) ∧
        Machine.Bounded outcome.1 outcome.2.stack := by
  exact ⟨fun machine script shallow short => ⟨Machine.evalPath_leads _ _ _,
      fun _ _ => Machine.stack_run_mem_evalPath checker machine,
      Machine.evalPath_bounded shallow short,
      Machine.eval_bounded shallow short⟩,
    fun unlocking locking => ⟨scriptsPath_leads _ _ _, scriptsPath_bounded,
      runScripts_bounded⟩⟩

/-- A full stack on which one more item is pushed. -/
theorem eval_within_limits_of_full_stack :
    let checker : SignatureChecker := fun _ => .ok true
    let below : List Bytes := List.replicate 999 [0x01]
    let machine : Machine := ⟨[0x02] :: below, []⟩
    let duplicate : Script := ⟨[0x76]⟩
    machine.stack.length ≤ 1000 ∧
      (∀ item ∈ machine.stack, item.length ≤ 520) ∧
      machine.eval checker duplicate =
        (.error (.script .stackOverflow), machine.push [0x02]) ∧
      (machine.push [0x02]).stack.length = 1001 ∧
      (machine.push [0x02]).stack ∈ machine.evalPath checker duplicate ∧
      Machine.Bounded (machine.eval checker duplicate).1
        (machine.eval checker duplicate).2.stack := by
  intro checker below machine duplicate
  have belowLength : below.length = 999 := List.length_replicate
  have shallow : machine.stack.length ≤ 1000 := by
    change below.length + 1 ≤ 1000
    omega
  have short : ∀ item ∈ machine.stack, item.length ≤ 520 := by
    refine List.forall_mem_cons.mpr ⟨by decide, fun item itemMem => ?_⟩
    rw [List.eq_of_mem_replicate itemMem]
    decide
  have pushedLength : (machine.push [0x02]).stack.length = 1001 := by
    change below.length + 1 + 1 = 1001
    omega
  have deep : Machine.maxDepth < (machine.push [0x02]).stack.length := by
    rw [pushedLength]
    decide
  have sized : ¬ Script.maxSize < duplicate.size := by decide
  have parsed : duplicate.elements = .ok [.op .dup] := rfl
  have overflows : machine.eval checker duplicate =
      (.error (.script .stackOverflow), machine.push [0x02]) := by
    rw [Machine.eval, if_neg sized, parsed]
    exact Machine.run_cons_of_overflow rfl deep []
  have passed : (machine.push [0x02]).stack ∈
      machine.evalPath checker duplicate := by
    rw [Machine.evalPath, if_neg sized, parsed]
    exact List.mem_cons_self
  obtain ⟨-, -, -, atEnd⟩ :=
    (eval_within_limits checker).1 machine duplicate shallow short
  exact ⟨shallow, short, overflows, pushedLength, passed, atEnd⟩

end CoinSpend
