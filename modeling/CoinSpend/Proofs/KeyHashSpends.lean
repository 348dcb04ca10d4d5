import CoinSpend.Proofs.RunChecks
import CoinSpend.Proofs.ScriptForms

/-!
# Spending by key hash

Unlocking by pushes only puts the pushed byte strings on the stack.  The script
that pays to a key hash then compares the hash of the top one, and leaves the
decision to the signature checker if it is the right one.
-/

namespace CoinSpend

theorem truthy_truthBytes (truth : Bool) : truthy (truthBytes truth) = truth := by
  cases truth <;> rfl

namespace Machine

variable {checker : SignatureChecker} {scriptCode : Script}
  {machine next : Machine} {element : ScriptElement}

theorem execute_push_of_short {data : Bytes}
    (short : data.length ≤ Script.maxPushSize) :
    execute checker scriptCode machine (.push data) =
      (.ok true, machine.push data) :=
  if_neg (Nat.not_lt.mpr short)

/-- Pushes pile up, and the last one comes to the top. -/
theorem run_pushes {items : List Bytes}
    (short : ∀ item ∈ items, item.length ≤ Script.maxPushSize)
    (shallow : machine.stack.length + items.length ≤ maxDepth) :
    run checker scriptCode machine (items.map .push) =
      (.ok true, { machine with stack := items.reverse ++ machine.stack }) := by
  induction items generalizing machine with
  | nil => rfl
  | cons item items ih =>
      have executed : execute checker scriptCode machine (.push item) =
          (.ok true, machine.push item) :=
        execute_push_of_short (short item List.mem_cons_self)
      have pushedLength : (machine.push item).stack.length =
          machine.stack.length + 1 :=
        List.length_cons
      rw [List.length_cons] at shallow
      rw [List.map_cons, run_cons_of_success executed (by omega),
        ih (fun other otherMem => short other (List.mem_cons_of_mem _ otherMem))
          (by omega)]
      simp [push]

end Machine

namespace Script

/-- The elements of the script that pays to a key hash. -/
def keyHashElements (keyHash : KeyHash) : List ScriptElement :=
  [.op .dup, .op .hash160, .push keyHash.toBytes, .op .equalVerify,
    .op .checkSig]

theorem elements_payToKeyHash (keyHash : KeyHash) :
    (payToKeyHash keyHash).elements = .ok (keyHashElements keyHash) := by
  apply elements_ofElements
  intro element elementMem
  have pushed : keyHash.toBytes.length < 2 ^ 32 := by
    rw [keyHash.length_toBytes]
    decide
  simp only [List.mem_cons, List.not_mem_nil, or_false] at elementMem
  rcases elementMem with rfl | rfl | rfl | rfl | rfl
  · decide
  · decide
  · exact pushed
  · decide
  · decide

end Script

namespace Machine

variable {checker : SignatureChecker} {machine : Machine}

theorem run_checkSig {scriptCode : Script} {signature publicKey : Bytes}
    {rest : List Bytes} {checks : List SignatureCheck}
    (shallow : rest.length + 1 ≤ maxDepth) :
    run checker scriptCode ⟨publicKey :: signature :: rest, checks⟩
        [.op .checkSig] =
      afterCheck rest (checks ++ [⟨signature, publicKey, scriptCode⟩])
        (checker ⟨signature, publicKey, scriptCode⟩) := by
  rw [run, execute_checkSig]
  cases checker ⟨signature, publicKey, scriptCode⟩ with
  | error error => rfl
  | ok valid => exact if_neg (Nat.not_lt.mpr shallow)

section KeyHashElements

variable {scriptCode : Script} {publicKey top : Bytes} {rest : List Bytes}
  {checks : List SignatureCheck}

theorem execute_dup :
    execute checker scriptCode ⟨top :: rest, checks⟩ (.op .dup) =
      (.ok true, ⟨top :: top :: rest, checks⟩) :=
  rfl

theorem execute_hash160 (top : Bytes) (rest : List Bytes) :
    execute checker scriptCode ⟨top :: rest, checks⟩ (.op .hash160) =
      (.ok true, ⟨(hash160 top).toBytes :: rest, checks⟩) :=
  rfl

theorem execute_push_keyHash (stack : List Bytes) (keyHash : KeyHash) :
    execute checker scriptCode ⟨stack, checks⟩ (.push keyHash.toBytes) =
      (.ok true, ⟨keyHash.toBytes :: stack, checks⟩) := by
  apply execute_push_of_short
  rw [keyHash.length_toBytes]
  decide

theorem execute_equalVerify (found keyHash : KeyHash) :
    execute checker scriptCode
        ⟨keyHash.toBytes :: found.toBytes :: rest, checks⟩
        (.op .equalVerify) =
      (.ok (decide (found = keyHash)), ⟨rest, checks⟩) := by
  have compared : (found.toBytes == keyHash.toBytes) =
      decide (found = keyHash) := by
    rw [Bool.beq_eq_decide_eq]
    exact decide_eq_decide.mpr ⟨FixedBytes.ext, congrArg FixedBytes.toBytes⟩
  change (Except.ok (found.toBytes == keyHash.toBytes), _) = _
  rw [compared]

/-- All but the last operation compare the hash of the top item and leave the
stack as it was. -/
theorem run_keyHashElements_of_key (keyHash : KeyHash)
    (shallow : rest.length + 3 ≤ maxDepth) :
    run checker scriptCode ⟨publicKey :: rest, checks⟩
        (Script.keyHashElements keyHash) =
      if hash160 publicKey = keyHash then
        run checker scriptCode ⟨publicKey :: rest, checks⟩ [.op .checkSig]
      else (.ok false, ⟨publicKey :: rest, checks⟩) := by
  have depthAfterDup : rest.length + 1 + 1 ≤ maxDepth := by omega
  have depthAfterVerify : rest.length + 1 ≤ maxDepth := by omega
  rw [Script.keyHashElements, run_cons_of_success execute_dup depthAfterDup,
    run_cons_of_success (execute_hash160 _ (publicKey :: rest)) depthAfterDup,
    run_cons_of_success
      (execute_push_keyHash (_ :: publicKey :: rest) keyHash) shallow]
  generalize hash160 publicKey = found
  have verify : execute checker scriptCode
        ⟨keyHash.toBytes :: found.toBytes :: publicKey :: rest, checks⟩
        (.op .equalVerify) = _ :=
    execute_equalVerify found keyHash
  by_cases same : found = keyHash
  · rw [decide_eq_true same] at verify
    rw [if_pos same, run_cons_of_success verify depthAfterVerify]
  · rw [decide_eq_false same] at verify
    rw [if_neg same, run_cons, verify]
    rfl

/-- On a stack that is almost full the limit is reached before the check. -/
theorem run_keyHashElements_of_deep (keyHash : KeyHash)
    (deep : maxDepth < rest.length + 3) :
    ∃ final,
      run checker scriptCode ⟨publicKey :: rest, checks⟩
          (Script.keyHashElements keyHash) =
          (.error (.script .stackOverflow), final) ∧
        final.checks = checks := by
  rw [Script.keyHashElements]
  by_cases full : maxDepth < rest.length + 2
  · exact ⟨_, run_cons_of_overflow execute_dup full _, rfl⟩
  · have fits : rest.length + 2 ≤ maxDepth := Nat.not_lt.mp full
    rw [run_cons_of_success execute_dup fits,
      run_cons_of_success (execute_hash160 _ (publicKey :: rest)) fits]
    exact ⟨_, run_cons_of_overflow
      (execute_push_keyHash (_ :: publicKey :: rest) keyHash) deep _, rfl⟩

end KeyHashElements

theorem run_keyHashElements {scriptCode : Script} {signature publicKey : Bytes}
    {rest : List Bytes} {checks : List SignatureCheck} (keyHash : KeyHash)
    (shallow : rest.length + 4 ≤ maxDepth) :
    run checker scriptCode ⟨publicKey :: signature :: rest, checks⟩
        (Script.keyHashElements keyHash) =
      if hash160 publicKey = keyHash then
        afterCheck rest (checks ++ [⟨signature, publicKey, scriptCode⟩])
          (checker ⟨signature, publicKey, scriptCode⟩)
      else (.ok false, ⟨publicKey :: signature :: rest, checks⟩) := by
  have keyShallow : (signature :: rest).length + 3 ≤ maxDepth := by
    rw [List.length_cons]
    omega
  rw [run_keyHashElements_of_key keyHash keyShallow, run_checkSig (by omega)]

theorem eval_of_keyHashElements {locking : Script} {keyHash : KeyHash}
    (locked : locking.elements = .ok (Script.keyHashElements keyHash)) :
    eval checker machine locking =
      run checker locking machine (Script.keyHashElements keyHash) := by
  have size := Script.size_le_of_elements locked
  simp only [Script.keyHashElements, List.map_cons, List.map_nil,
    ScriptElement.longestSize, keyHash.length_toBytes, List.sum_cons,
    List.sum_nil] at size
  have sized : ¬ Script.maxSize < locking.size := by
    change ¬ 10000 < locking.size
    omega
  rw [eval, if_neg sized, locked]

end Machine

section Unlocking

variable {checker : SignatureChecker} {unlocking : Script} {items : List Bytes}

theorem isPushOnly_of_pushes
    (parsed : unlocking.elements = .ok (items.map .push)) :
    unlocking.isPushOnly = true := by
  rw [Script.isPushOnly, parsed]
  simp [ScriptElement.isPush]

theorem items_unique {others : List Bytes}
    (parsed : unlocking.elements = .ok (items.map .push))
    (reparsed : unlocking.elements = .ok (others.map .push)) :
    items = others := by
  rw [parsed, Except.ok.injEq] at reparsed
  exact List.map_injective_iff.mpr (fun _ _ => ScriptElement.push.inj) reparsed

theorem runScripts_of_pushes
    (parsed : unlocking.elements = .ok (items.map .push))
    (sized : unlocking.size ≤ Script.maxSize)
    (short : ∀ item ∈ items, item.length ≤ Script.maxPushSize)
    (few : items.length ≤ Machine.maxDepth) (locking : Script) :
    runScripts checker unlocking locking =
      judged ((Machine.mk items.reverse []).eval checker locking) := by
  have start : Machine.eval checker ⟨[], []⟩ unlocking =
      (.ok true, ⟨items.reverse, []⟩) := by
    rw [Machine.eval, if_neg (Nat.not_lt.mpr sized), parsed]
    simp only
    rw [Machine.run_pushes short (by simpa using few), List.append_nil]
  rw [runScripts_eq_unlocked (isPushOnly_of_pushes parsed), start]
  rfl

theorem elements_ofElements_pushes
    (fits : ∀ item ∈ items, item.length < 2 ^ 32) :
    (Script.ofElements (items.map .push)).elements = .ok (items.map .push) := by
  apply Script.elements_ofElements
  intro element elementMem
  obtain ⟨item, itemMem, rfl⟩ := List.mem_map.mp elementMem
  exact fits item itemMem

theorem elements_signatureAndKey {signature publicKey : Bytes}
    (signatureFits : signature.length < 2 ^ 32)
    (keyFits : publicKey.length < 2 ^ 32) :
    (Script.signatureAndKey signature publicKey).elements =
      .ok ([signature, publicKey].map .push) :=
  elements_ofElements_pushes (List.forall_mem_cons.mpr
    ⟨signatureFits, List.forall_mem_singleton.mpr keyFits⟩)

end Unlocking

end CoinSpend
