import CoinSpend.Proofs.KeyHashSpends

/-!
# How a spend by key hash is decided

An unlocking script within the limits of execution is judged by its last two
pushes alone: the hash of the last one selects between failure and one question
to the signature checker, whose answer is final.  Any other unlocking script is
an error, and the checker is never asked.
-/

namespace CoinSpend

namespace Machine

variable {checker : SignatureChecker} {scriptCode : Script}
  {machine next : Machine}

/-- A run of pushes fails unless all of them fit, each by its size and all
together by their number. -/
theorem run_pushes_cases (checker : SignatureChecker) (scriptCode : Script)
    (items : List Bytes) (shallow : machine.stack.length ≤ maxDepth) :
    ((∀ item ∈ items, item.length ≤ Script.maxPushSize) ∧
      machine.stack.length + items.length ≤ maxDepth) ∨
    ∃ error final,
      run checker scriptCode machine (items.map .push) =
          (.error error, final) ∧
        final.checks = machine.checks := by
  induction items generalizing machine with
  | nil => exact .inl ⟨fun _ impossible => absurd impossible (by simp), shallow⟩
  | cons item items ih =>
      by_cases long : Script.maxPushSize < item.length
      · have executed : execute checker scriptCode machine (.push item) =
            (.error (.script (.pushSize item.length)), machine) :=
          if_pos long
        refine .inr ⟨.script (.pushSize item.length), machine, ?_, rfl⟩
        rw [List.map_cons, run_cons, executed]
        rfl
      have executed : execute checker scriptCode machine (.push item) =
          (.ok true, machine.push item) :=
        execute_push_of_short (Nat.not_lt.mp long)
      have pushedLength : (machine.push item).stack.length =
          machine.stack.length + 1 :=
        List.length_cons
      by_cases deep : maxDepth < (machine.push item).stack.length
      · refine .inr ⟨.script .stackOverflow, machine.push item, ?_, rfl⟩
        rw [List.map_cons]
        exact run_cons_of_overflow executed deep _
      rw [List.map_cons, run_cons_of_success executed (Nat.not_lt.mp deep)]
      rcases ih (Nat.not_lt.mp deep) with ⟨short, few⟩ | failed
      · refine .inl ⟨?_, ?_⟩
        · intro other otherMem
          rcases List.mem_cons.mp otherMem with rfl | otherMem
          · exact Nat.not_lt.mp long
          · exact short other otherMem
        · rw [List.length_cons]
          omega
      · exact .inr failed

end Machine

/-- The unlocking scripts that leave a spend by key hash within all limits of
execution, with the byte strings that they push. -/
structure KeyHashUnlocking (unlocking : Script) (items : List Bytes) :
    Prop where
  size_le : unlocking.size ≤ 10000
  parsed : unlocking.elements = .ok (items.map .push)
  few : items.length ≤ 998
  short : ∀ item ∈ items, item.length ≤ 520

/-- What becomes of a spend by key hash and which checks it asks for, given the
pushed byte strings, the last one first. -/
def keyHashVerdict (checker : SignatureChecker) (keyHash : KeyHash)
    (locking : Script) : List Bytes → Except Error Bool × List SignatureCheck
  | publicKey :: signature :: _ =>
      if hash160 publicKey = keyHash then
        (checker ⟨signature, publicKey, locking⟩,
          [⟨signature, publicKey, locking⟩])
      else (.ok false, [])
  | _ => (.ok false, [])

section Decision

variable {checker : SignatureChecker} {unlocking locking : Script}
  {items : List Bytes} {keyHash : KeyHash}

theorem judged_afterCheck (rest : List Bytes) (checks : List SignatureCheck)
    (answer : Except Error Bool) :
    (judged (Machine.afterCheck rest checks answer)).1 = answer := by
  rcases answer with error | valid
  · rfl
  · change Except.ok (truthy (truthBytes valid)) = .ok valid
    rw [truthy_truthBytes]

theorem runScripts_of_keyHashUnlocking (checker : SignatureChecker)
    (locked : locking.elements = .ok (Script.keyHashElements keyHash))
    (presented : KeyHashUnlocking unlocking items) :
    ((runScripts checker unlocking locking).1,
        (runScripts checker unlocking locking).2.checks) =
      keyHashVerdict checker keyHash locking items.reverse := by
  have few : items.length ≤ Machine.maxDepth :=
    Nat.le_trans presented.few (by decide)
  have reversedFew : items.reverse.length ≤ 998 := by
    rw [List.length_reverse]
    exact presented.few
  rw [runScripts_of_pushes presented.parsed presented.size_le presented.short
    few, Machine.eval_of_keyHashElements locked]
  rcases reversed : items.reverse with
    _ | ⟨publicKey, _ | ⟨signature, rest⟩⟩
  · rfl
  · rw [Machine.run_keyHashElements_of_key keyHash (by decide)]
    simp only [keyHashVerdict]
    split <;> rfl
  · have shallow : rest.length + 4 ≤ Machine.maxDepth := by
      change rest.length + 4 ≤ 1000
      simp only [reversed, List.length_cons] at reversedFew
      omega
    rw [Machine.run_keyHashElements keyHash shallow, keyHashVerdict]
    split
    · rw [judged_afterCheck, checks_judged, Machine.checks_afterCheck]
      rfl
    · rfl

theorem exists_items_of_all_isPush {elements : List ScriptElement}
    (pushes : elements.all ScriptElement.isPush = true) :
    ∃ items : List Bytes, elements = items.map .push := by
  induction elements with
  | nil => exact ⟨[], rfl⟩
  | cons element elements ih =>
      rw [List.all_cons, Bool.and_eq_true] at pushes
      obtain ⟨items, rfl⟩ := ih pushes.2
      cases element with
      | op code => exact absurd pushes.1 Bool.false_ne_true
      | push data => exact ⟨data :: items, rfl⟩

theorem exists_items_of_isPushOnly (pushes : unlocking.isPushOnly = true) :
    ∃ items : List Bytes, unlocking.elements = .ok (items.map .push) := by
  unfold Script.isPushOnly at pushes
  cases parsed : unlocking.elements with
  | error error =>
      rw [parsed] at pushes
      exact absurd pushes Bool.false_ne_true
  | ok elements =>
      rw [parsed] at pushes
      obtain ⟨items, rfl⟩ := exists_items_of_all_isPush pushes
      exact ⟨items, rfl⟩

/-- The pushes are executed, but there is no room for the locking script. -/
theorem runScripts_of_crowded
    (locked : locking.elements = .ok (Script.keyHashElements keyHash))
    (parsed : unlocking.elements = .ok (items.map .push))
    (sized : unlocking.size ≤ Script.maxSize)
    (short : ∀ item ∈ items, item.length ≤ Script.maxPushSize)
    (few : items.length ≤ Machine.maxDepth) (many : 998 < items.length) :
    ∃ error final,
      runScripts checker unlocking locking = (.error error, final) ∧
        final.checks = [] := by
  rw [runScripts_of_pushes parsed sized short few,
    Machine.eval_of_keyHashElements locked]
  have reversedMany : 998 < items.reverse.length := by
    rwa [List.length_reverse]
  rcases reversed : items.reverse with _ | ⟨publicKey, rest⟩
  · rw [reversed] at reversedMany
    exact absurd reversedMany (by decide)
  · have deep : Machine.maxDepth < rest.length + 3 := by
      change 1000 < rest.length + 3
      rw [reversed, List.length_cons] at reversedMany
      omega
    obtain ⟨final, overflows, unasked⟩ :=
      Machine.run_keyHashElements_of_deep keyHash deep
    rw [overflows]
    exact ⟨_, final, rfl, unasked⟩

theorem runScripts_of_not_keyHashUnlocking (checker : SignatureChecker)
    (locked : locking.elements = .ok (Script.keyHashElements keyHash))
    (outside : ∀ items, ¬ KeyHashUnlocking unlocking items) :
    ∃ error final,
      runScripts checker unlocking locking = (.error error, final) ∧
        final.checks = [] := by
  by_cases pushes : unlocking.isPushOnly = true
  · -- what such a script breaks is one of its limits, in the order of execution
    obtain ⟨items, parsed⟩ := exists_items_of_isPushOnly pushes
    by_cases long : Script.maxSize < unlocking.size
    · rw [runScripts_eq_unlocked pushes, Machine.eval, if_pos long]
      exact ⟨_, _, rfl, rfl⟩
    have sized : unlocking.size ≤ Script.maxSize := Nat.not_lt.mp long
    have shallow : (Machine.mk [] []).stack.length ≤ Machine.maxDepth := by
      decide
    rcases Machine.run_pushes_cases checker unlocking items shallow with
      ⟨short, few⟩ | ⟨error, final, failed, unasked⟩
    · rw [List.length_nil, Nat.zero_add] at few
      have many : 998 < items.length := by
        by_contra spare
        exact outside items ⟨sized, parsed, Nat.not_lt.mp spare, short⟩
      exact runScripts_of_crowded locked parsed sized short few many
    · rw [runScripts_eq_unlocked pushes, Machine.eval, if_neg long, parsed]
      simp only [failed]
      exact ⟨error, final, rfl, unasked⟩
  · rw [runScripts, if_neg pushes]
    exact ⟨_, _, rfl, rfl⟩

theorem lastPushes_of_mem_checks
    (locked : locking.elements = .ok (Script.keyHashElements keyHash))
    {check : SignatureCheck}
    (asked : check ∈ (runScripts checker unlocking locking).2.checks) :
    check.scriptCode = locking ∧ ∃ earlier : List Bytes,
      unlocking.elements =
        .ok ((earlier ++ [check.signature, check.publicKey]).map .push) := by
  by_cases within : ∃ items, KeyHashUnlocking unlocking items
  · -- the verdict asks for nothing but a check of the last two pushes
    obtain ⟨items, presented⟩ := within
    have decided := runScripts_of_keyHashUnlocking checker locked presented
    rw [(Prod.mk.inj decided).2] at asked
    have parsed := presented.parsed
    rcases reversed : items.reverse with
      _ | ⟨publicKey, _ | ⟨signature, rest⟩⟩
    · rw [reversed] at asked
      contradiction
    · rw [reversed] at asked
      contradiction
    · have itemsEq : items = rest.reverse ++ [signature, publicKey] := by
        rw [← List.reverse_reverse items, reversed]
        simp
      rw [itemsEq] at parsed
      rw [reversed] at asked
      change check ∈ (if hash160 publicKey = keyHash then _ else _ : _ × _).2
        at asked
      split at asked
      · cases List.mem_singleton.mp asked
        exact ⟨rfl, rest.reverse, parsed⟩
      · contradiction
  · obtain ⟨error, final, failed, unasked⟩ :=
      runScripts_of_not_keyHashUnlocking checker locked
        (not_exists.mp within)
    rw [failed, unasked] at asked
    contradiction

end Decision

section Presented

variable {checker : SignatureChecker} {unlocking : Script}
  {signature publicKey : Bytes} {items : List Bytes}

theorem sum_longestSize_le {bound : Nat}
    (short : ∀ item ∈ items, item.length ≤ bound) :
    ((items.map .push).map ScriptElement.longestSize).sum ≤
      items.length * (bound + 5) := by
  induction items with
  | nil => exact Nat.zero_le _
  | cons item items ih =>
      obtain ⟨itemShort, restShort⟩ := List.forall_mem_cons.mp short
      have restBound := ih restShort
      simp only [List.map_cons, List.sum_cons, List.length_cons,
        ScriptElement.longestSize, Nat.add_mul]
      omega

/-- However long the written forms of a few short pushes are, they stay within
the limits. -/
theorem keyHashUnlocking_of_short
    (parsed : unlocking.elements = .ok (items.map .push))
    (short : ∀ item ∈ items, item.length ≤ 73) (few : items.length ≤ 100) :
    KeyHashUnlocking unlocking items where
  size_le := by
    have size := Script.size_le_of_elements parsed
    have bound := sum_longestSize_le short
    omega
  parsed := parsed
  few := by omega
  short item itemMem := Nat.le_trans (short item itemMem) (by decide)

/-- What is pushed below the signature and the public key plays no part. -/
theorem verifyScripts_of_presented (checker : SignatureChecker)
    (earlier : List Bytes)
    (presented : KeyHashUnlocking unlocking (earlier ++ [signature, publicKey]))
    (keyHash : KeyHash) :
    verifyScripts checker unlocking (.payToKeyHash keyHash) =
      if hash160 publicKey = keyHash then
        checker ⟨signature, publicKey, .payToKeyHash keyHash⟩
      else .ok false := by
  have decided := runScripts_of_keyHashUnlocking checker
    (Script.elements_payToKeyHash keyHash) presented
  rw [verifyScripts, (Prod.mk.inj decided).1, List.reverse_append]
  change (if hash160 publicKey = keyHash then _ else _ : _ × _).1 = _
  split <;> rfl

/-- A spend that succeeds has stayed within the limits. -/
theorem keyHashUnlocking_of_verified
    (parsed : unlocking.elements = .ok (items.map .push)) {keyHash : KeyHash}
    (verified : verifyScripts checker unlocking (.payToKeyHash keyHash) =
      .ok true) :
    KeyHashUnlocking unlocking items := by
  by_contra outside
  have nowhere : ∀ others, ¬ KeyHashUnlocking unlocking others := by
    intro others presented
    rw [items_unique presented.parsed parsed] at presented
    exact outside presented
  obtain ⟨error, final, failed, -⟩ :=
    runScripts_of_not_keyHashUnlocking checker
      (Script.elements_payToKeyHash keyHash) nowhere
  rw [verifyScripts, failed] at verified
  contradiction

end Presented

/-- A spend by key hash is decided by the verdict on what its unlocking script
pushes, if that stays within the limits, and fails without a single check if it
does not. -/
theorem verifyScripts_payToKeyHash_decided (checker : SignatureChecker)
    (unlocking : Script) (keyHash : KeyHash) :
    (∀ items, KeyHashUnlocking unlocking items →
      (verifyScripts checker unlocking (.payToKeyHash keyHash),
          (runScripts checker unlocking (.payToKeyHash keyHash)).2.checks) =
        keyHashVerdict checker keyHash (.payToKeyHash keyHash)
          items.reverse) ∧
    ((∀ items, ¬ KeyHashUnlocking unlocking items) →
      (∃ error, verifyScripts checker unlocking (.payToKeyHash keyHash) =
        .error error) ∧
      (runScripts checker unlocking (.payToKeyHash keyHash)).2.checks = []) := by
  have locked := Script.elements_payToKeyHash keyHash
  refine ⟨fun items presented => ?_, fun outside => ?_⟩
  · exact runScripts_of_keyHashUnlocking checker locked presented
  · obtain ⟨error, final, failed, unasked⟩ :=
      runScripts_of_not_keyHashUnlocking checker locked outside
    rw [verifyScripts, failed]
    exact ⟨⟨error, rfl⟩, unasked⟩

/-- A longer written form than needed reaches the check, and the checker's
failure comes back.  An operation in an unlocking script does not. -/
theorem verifyScripts_payToKeyHash_of_padded_push :
    let unlocking : Script := ⟨[0x4c, 0x01, 0x07, 0x01, 0x05]⟩
    let foreign : Script := ⟨[0x76]⟩
    let locking := Script.payToKeyHash (hash160 [0x05])
    let checker : SignatureChecker := fun _ => .error .verificationFailed
    KeyHashUnlocking unlocking [[0x07], [0x05]] ∧
      verifyScripts checker unlocking locking = .error .verificationFailed ∧
      (runScripts checker unlocking locking).2.checks =
        [⟨[0x07], [0x05], locking⟩] ∧
      (∀ items, ¬ KeyHashUnlocking foreign items) ∧
      ∃ error, verifyScripts checker foreign locking = .error error := by
  intro unlocking foreign locking checker
  have presented : KeyHashUnlocking unlocking [[0x07], [0x05]] :=
    ⟨by decide, rfl, by decide, by decide⟩
  have outside : ∀ items, ¬ KeyHashUnlocking foreign items := by
    intro items presented
    have parsed : foreign.elements = .ok [.op .dup] := rfl
    have same := presented.parsed
    rw [parsed, Except.ok.injEq] at same
    cases items <;> simp at same
  have decided := (verifyScripts_payToKeyHash_decided checker unlocking
    (hash160 [0x05])).1 _ presented
  have failed := (verifyScripts_payToKeyHash_decided checker foreign
    (hash160 [0x05])).2 outside
  have verdict : keyHashVerdict checker (hash160 [0x05]) locking
      [[0x05], [0x07]] =
        (.error .verificationFailed, [⟨[0x07], [0x05], locking⟩]) := by
    simp only [keyHashVerdict, if_true, checker]
  obtain ⟨resultEq, checksEq⟩ := Prod.mk.inj (decided.trans verdict)
  exact ⟨presented, resultEq, checksEq, outside, failed.1⟩

end CoinSpend
