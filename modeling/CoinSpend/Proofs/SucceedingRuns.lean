import CoinSpend.Proofs.RunChecks

/-!
# Runs that succeed

A run succeeds if its elements do, one after the other, and the stack is never
too deep in between.  A pair of scripts succeeds if both do and leave a true
value on top.
-/

namespace CoinSpend

namespace Machine

variable {checker : SignatureChecker} {scriptCode script : Script}
  {machine final : Machine} {element : ScriptElement}
  {elements front back : List ScriptElement}

theorem run_cons_eq_success_iff :
    run checker scriptCode machine (element :: elements) = (.ok true, final) ↔
      ∃ next, execute checker scriptCode machine element = (.ok true, next) ∧
        next.stack.length ≤ maxDepth ∧
        run checker scriptCode next elements = (.ok true, final) := by
  constructor
  · intro succeeds
    rw [run_cons] at succeeds
    rcases executed : execute checker scriptCode machine element with
      ⟨error | _ | _, next⟩
    · rw [executed] at succeeds
      cases succeeds
    · rw [executed] at succeeds
      cases succeeds
    · rw [executed, continued] at succeeds
      split at succeeds
      · cases succeeds
      · rename_i shallow
        exact ⟨next, rfl, Nat.not_lt.mp shallow, succeeds⟩
  · rintro ⟨next, executed, shallow, succeeds⟩
    rw [run_cons_of_success executed shallow, succeeds]

theorem run_append_eq_success_iff :
    run checker scriptCode machine (front ++ back) = (.ok true, final) ↔
      ∃ middle, run checker scriptCode machine front = (.ok true, middle) ∧
        run checker scriptCode middle back = (.ok true, final) := by
  induction front generalizing machine with
  | nil =>
      constructor
      · exact fun succeeds => ⟨machine, rfl, succeeds⟩
      · rintro ⟨middle, same, succeeds⟩
        cases same
        exact succeeds
  | cons element front ih =>
      simp only [List.cons_append, run_cons_eq_success_iff, ih]
      constructor
      · rintro ⟨next, executed, shallow, middle, first, second⟩
        exact ⟨middle, ⟨next, executed, shallow, first⟩, second⟩
      · rintro ⟨middle, ⟨next, executed, shallow, first⟩, second⟩
        exact ⟨next, executed, shallow, middle, first, second⟩

theorem eval_eq_success_iff :
    eval checker machine script = (.ok true, final) ↔
      script.size ≤ Script.maxSize ∧
        ∃ elements, script.elements = .ok elements ∧
          run checker script machine elements = (.ok true, final) := by
  unfold eval
  by_cases long : Script.maxSize < script.size
  · rw [if_pos long]
    exact iff_of_false nofun fun fits => absurd long (Nat.not_lt.mpr fits.1)
  · rw [if_neg long, and_iff_right (Nat.not_lt.mp long)]
    cases script.elements with
    | error error => exact iff_of_false nofun nofun
    | ok elements => simp

end Machine

theorem judged_eq_success_iff {outcome : Outcome} {final : Machine} :
    judged outcome = (.ok true, final) ↔
      outcome = (.ok true, final) ∧ final.verdict = true := by
  rcases outcome with ⟨error | _ | _, next⟩
  · exact iff_of_false nofun nofun
  · exact iff_of_false nofun nofun
  · simp only [judged, Prod.mk.injEq, Except.ok.injEq, true_and]
    constructor
    · rintro ⟨verdict, rfl⟩
      exact ⟨rfl, verdict⟩
    · rintro ⟨rfl, verdict⟩
      exact ⟨verdict, rfl⟩

section Pair

variable {checker : SignatureChecker} {unlocking locking : Script}

theorem runScripts_eq_success_iff {final : Machine} :
    runScripts checker unlocking locking = (.ok true, final) ↔
      unlocking.isPushOnly = true ∧
        (∃ next, Machine.eval checker ⟨[], []⟩ unlocking = (.ok true, next) ∧
          next.eval checker locking = (.ok true, final)) ∧
        final.verdict = true := by
  by_cases pushes : unlocking.isPushOnly = true
  · rw [runScripts_eq_unlocked pushes, and_iff_right pushes]
    rcases Machine.eval checker ⟨[], []⟩ unlocking with ⟨error | _ | _, next⟩
    · simp [unlocked]
    · simp [unlocked]
    · rw [unlocked, judged_eq_success_iff]
      simp
  · simp [runScripts, pushes]

theorem verifyScripts_eq_true_iff :
    verifyScripts checker unlocking locking = .ok true ↔
      ∃ final, runScripts checker unlocking locking = (.ok true, final) := by
  unfold verifyScripts
  constructor
  · intro verified
    exact ⟨_, Prod.ext verified rfl⟩
  · rintro ⟨final, spends⟩
    rw [spends]

end Pair

end CoinSpend
