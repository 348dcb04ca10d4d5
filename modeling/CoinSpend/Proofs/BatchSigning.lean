import CoinSpend.Proofs.SigningRuns

/-!
# Signing a batch in place

A batch changes the transaction as it goes: its indices are examined first, then
all its scripts are computed, and only then is the first script written.  The
scripts that were computed are for inputs that are there, and writing one keeps
the number of inputs, so once the first is written nothing can go wrong.
-/

namespace CoinSpend

/-- How signing in place stops early: the batch is refused, or a script is to be
written at an index that no input has. -/
inductive SigningFault
  | refused (error : Error)
  | noInput (index : Nat)
  deriving DecidableEq

/-- A computation that changes a transaction as it goes.  Where it stops early,
what was written until then remains. -/
abbrev InPlace := EStateM SigningFault Transaction

namespace InPlace

/-- Write the unlocking script of one input. -/
def writeScript (index : Nat) (script : Script) : InPlace Unit := do
  let tx ← get
  if index < tx.inputs.length then set (tx.setUnlocking index script)
  else throw (.noInput index)

/-- Write the scripts of a batch one after the other. -/
def writeScripts : List (SigningRequest × Script) → InPlace Unit
  | [] => return
  | (request, script) :: rest => do
      writeScript request.inputIndex script
      writeScripts rest

/-- Sign a batch in place. -/
def signInputs (requests : List SigningRequest) : InPlace Unit :=
  match Transaction.firstRepeated? []
      (requests.map SigningRequest.inputIndex) with
  | some index => throw (.refused (.duplicateInput index))
  | none => do
      let before ← get
      match requests.mapM before.unlockingScript with
      | .error error => throw (.refused error)
      | .ok scripts => writeScripts (requests.zip scripts)

variable {tx : Transaction} {requests : List SigningRequest}

theorem run_writeScript_of_lt {index : Nat} (inside : index < tx.inputs.length)
    (script : Script) :
    (writeScript index script).run tx =
      .ok () (tx.setUnlocking index script) := by
  unfold writeScript
  simp [EStateM.run_bind, inside]

/-- A run of writes keeps the number of inputs, so none of them is at an index
without an input if there was one for each at the beginning. -/
theorem run_writeScripts {writes : List (SigningRequest × Script)}
    (inside : ∀ write ∈ writes, write.1.inputIndex < tx.inputs.length) :
    (writeScripts writes).run tx =
      .ok () (writes.foldl (fun signed (request, script) =>
        signed.setUnlocking request.inputIndex script) tx) := by
  induction writes generalizing tx with
  | nil => rfl
  | cons write writes ih =>
      obtain ⟨firstInside, restInside⟩ := List.forall_mem_cons.mp inside
      have sameCount := Transaction.length_inputs_congr
        (tx.unsigned_setUnlocking write.1.inputIndex write.2)
      rw [writeScripts, EStateM.run_bind, run_writeScript_of_lt firstInside]
      apply ih
      rwa [sameCount]

end InPlace

namespace Transaction

/-- The earliest element that has occurred before it ends the longest beginning
without one. -/
theorem firstRepeated?_eq_some_iff {seen rest : List Nat} {index : Nat} :
    firstRepeated? seen rest = some index ↔
      ∃ before after, rest = before ++ index :: after ∧ before.Nodup ∧
        (∀ earlier ∈ before, earlier ∉ seen) ∧
        (index ∈ seen ∨ index ∈ before) := by
  induction rest generalizing seen with
  | nil => simp [firstRepeated?]
  | cons first rest ih =>
      unfold firstRepeated?
      by_cases repeated : first ∈ seen
      · rw [if_pos repeated, Option.some.injEq]
        constructor
        · rintro rfl
          exact ⟨[], rest, rfl, List.nodup_nil, by simp, .inl repeated⟩
        · rintro ⟨before, after, same, -, fresh, -⟩
          cases before with
          | nil => exact (List.cons.inj same).1
          | cons earlier before =>
              obtain ⟨rfl, -⟩ := List.cons.inj same
              exact absurd repeated (fresh first List.mem_cons_self)
      · rw [if_neg repeated, ih]
        constructor
        · rintro ⟨before, after, rfl, distinct, fresh, occurred⟩
          simp only [List.mem_cons, not_or] at fresh occurred
          refine ⟨first :: before, after, rfl, ?_, ?_, ?_⟩
          · refine List.nodup_cons.mpr ⟨fun member => ?_, distinct⟩
            exact (fresh first member).1 rfl
          · exact List.forall_mem_cons.mpr
              ⟨repeated, fun earlier member => (fresh earlier member).2⟩
          · rw [List.mem_cons]
            tauto
        · rintro ⟨before, after, same, distinct, fresh, occurred⟩
          cases before with
          | nil =>
              obtain ⟨rfl, -⟩ := List.cons.inj same
              simp [repeated] at occurred
          | cons earlier before =>
              obtain ⟨rfl, rfl⟩ := List.cons.inj same
              obtain ⟨absent, distinct⟩ := List.nodup_cons.mp distinct
              have freshRest := (List.forall_mem_cons.mp fresh).2
              refine ⟨before, after, rfl, distinct,
                fun earlier member => ?_, ?_⟩
              · rw [List.mem_cons, not_or]
                refine ⟨?_, freshRest earlier member⟩
                rintro rfl
                exact absent member
              · rw [List.mem_cons] at occurred ⊢
                tauto

variable {tx : Transaction} {requests : List SigningRequest}

theorem map_inputIndex_eq_append_iff {before after : List Nat} {index : Nat} :
    requests.map SigningRequest.inputIndex = before ++ index :: after ↔
      ∃ earlier request later, requests = earlier ++ request :: later ∧
        request.inputIndex = index ∧
        earlier.map SigningRequest.inputIndex = before ∧
        later.map SigningRequest.inputIndex = after := by
  rw [List.map_eq_append_iff]
  constructor
  · rintro ⟨earlier, rest, rfl, beforeEq, restEq⟩
    obtain ⟨request, later, rfl, indexEq, afterEq⟩ :=
      List.map_eq_cons_iff.mp restEq
    exact ⟨earlier, request, later, rfl, indexEq, beforeEq, afterEq⟩
  · rintro ⟨earlier, request, later, rfl, rfl, rfl, rfl⟩
    exact ⟨earlier, request :: later, rfl, rfl, rfl⟩

theorem signInputs_eq_duplicateInput_iff_firstRepeated? {index : Nat} :
    tx.signInputs requests = .error (.duplicateInput index) ↔
      firstRepeated? [] (requests.map SigningRequest.inputIndex) =
        some index := by
  rw [signInputs_eq_match]
  cases firstRepeated? [] (requests.map SigningRequest.inputIndex) with
  | some found => simp
  | none =>
      cases requests.find? fun request =>
          decide (tx.inputs.length ≤ request.inputIndex) <;> simp

/-- An index is reported as repeated if it is the one of the earliest request
whose index has occurred before. -/
theorem signInputs_eq_duplicateInput_iff {index : Nat} :
    tx.signInputs requests = .error (.duplicateInput index) ↔
      ∃ before request after, requests = before ++ request :: after ∧
        request.inputIndex = index ∧
        index ∈ before.map SigningRequest.inputIndex ∧
        (before.map SigningRequest.inputIndex).Nodup := by
  rw [signInputs_eq_duplicateInput_iff_firstRepeated?,
    firstRepeated?_eq_some_iff]
  constructor
  · rintro ⟨_, _, split, distinct, -, occurred⟩
    obtain ⟨before, request, after, rfl, indexEq, rfl, rfl⟩ :=
      map_inputIndex_eq_append_iff.mp split
    simp only [List.not_mem_nil, false_or] at occurred
    exact ⟨before, request, after, rfl, indexEq, occurred, distinct⟩
  · rintro ⟨before, request, after, rfl, indexEq, occurred, distinct⟩
    have split := map_inputIndex_eq_append_iff.mpr
      ⟨before, request, after, rfl, indexEq, rfl, rfl⟩
    exact ⟨_, _, split, distinct, by simp, .inr occurred⟩

theorem exists_signInputs_eq_duplicateInput_iff :
    (∃ index, tx.signInputs requests = .error (.duplicateInput index)) ↔
      ¬ (requests.map SigningRequest.inputIndex).Nodup := by
  simp only [signInputs_eq_duplicateInput_iff_firstRepeated?]
  rw [← firstRepeated?_nil_eq_none_iff]
  exact Option.ne_none_iff_exists'.symm

theorem signInputs_eq_inputIndexOutOfRange_iff_find? {index count : Nat} :
    tx.signInputs requests = .error (.inputIndexOutOfRange index count) ↔
      (requests.map SigningRequest.inputIndex).Nodup ∧
        tx.inputs.length = count ∧
        ∃ request, (requests.find? fun request =>
            decide (tx.inputs.length ≤ request.inputIndex)) = some request ∧
          request.inputIndex = index := by
  rw [signInputs_eq_match, ← firstRepeated?_nil_eq_none_iff]
  cases firstRepeated? [] (requests.map SigningRequest.inputIndex) with
  | some found => simp
  | none =>
      cases requests.find? fun request =>
          decide (tx.inputs.length ≤ request.inputIndex) with
      | some request => simp [and_comm]
      | none => simp

/-- An index is reported to be of no input if no index is repeated and it is the
one of the first request without an input. -/
theorem signInputs_eq_inputIndexOutOfRange_iff {index count : Nat} :
    tx.signInputs requests = .error (.inputIndexOutOfRange index count) ↔
      (requests.map SigningRequest.inputIndex).Nodup ∧
        tx.inputs.length = count ∧
        ∃ before request after, requests = before ++ request :: after ∧
          request.inputIndex = index ∧ tx.inputs.length ≤ index ∧
          ∀ earlier ∈ before, earlier.inputIndex < tx.inputs.length := by
  rw [signInputs_eq_inputIndexOutOfRange_iff_find?]
  refine and_congr_right fun _ => and_congr_right fun _ => ?_
  simp only [List.find?_eq_some_iff_append, decide_eq_true_eq,
    Bool.not_eq_true', decide_eq_false_iff_not, Nat.not_le]
  constructor
  · rintro ⟨request, ⟨outside, before, after, split, inside⟩, rfl⟩
    exact ⟨before, request, after, split, rfl, outside, inside⟩
  · rintro ⟨before, request, after, split, rfl, outside, inside⟩
    exact ⟨request, ⟨outside, before, after, split, inside⟩, rfl⟩

end Transaction

/-- Signing in place leaves behind what the batch is answered by: the signed
transaction, or the one from before. -/
theorem InPlace.run_signInputs (tx : Transaction)
    (requests : List SigningRequest) :
    (signInputs requests).run tx =
      match tx.signInputs requests with
      | .ok next => .ok () next
      | .error error => .error (.refused error) tx := by
  unfold signInputs Transaction.signInputs
  cases Transaction.firstRepeated? []
      (requests.map SigningRequest.inputIndex) with
  | some index => rfl
  | none =>
      rw [EStateM.run_bind, EStateM.run_get]
      dsimp only
      have computed := tx.mapM_unlockingScript requests
      cases failing : requests.find? fun request =>
          decide (tx.inputs.length ≤ request.inputIndex) with
      | some request =>
          simp only [failing] at computed
          rw [computed]
          rfl
      | none =>
          simp only [failing] at computed
          have inside : ∀ write ∈ requests.zip (requests.map tx.scriptFor),
              write.1.inputIndex < tx.inputs.length := by
            intro write writeMem
            have requestMem := (List.of_mem_zip writeMem).1
            simpa using List.find?_eq_none.mp failing _ requestMem
          rw [computed]
          exact run_writeScripts inside

/-- A batch is signed as a whole or not at all.  The earliest repeated index is
reported first, whether or not it is of an input, then the first request without
an input, and else all requests are fulfilled, each as the transaction answers it
before the batch.  A batch that is signed in place is written if it is signed and
leaves the transaction alone if it is not, and no write is at an index without an
input. -/
theorem Transaction.signInputs_all_or_nothing (tx : Transaction)
    (requests : List SigningRequest) :
    (∀ index, tx.signInputs requests = .error (.duplicateInput index) ↔
      ∃ before request after, requests = before ++ request :: after ∧
        request.inputIndex = index ∧
        index ∈ before.map SigningRequest.inputIndex ∧
        (before.map SigningRequest.inputIndex).Nodup) ∧
    ((∃ index, tx.signInputs requests = .error (.duplicateInput index)) ↔
      ¬ (requests.map SigningRequest.inputIndex).Nodup) ∧
    (∀ index count,
      tx.signInputs requests = .error (.inputIndexOutOfRange index count) ↔
        (requests.map SigningRequest.inputIndex).Nodup ∧
          tx.inputs.length = count ∧
          ∃ before request after, requests = before ++ request :: after ∧
            request.inputIndex = index ∧ tx.inputs.length ≤ index ∧
            ∀ earlier ∈ before, earlier.inputIndex < tx.inputs.length) ∧
    (∀ next, tx.signInputs requests = .ok next ↔
      (requests.map SigningRequest.inputIndex).Nodup ∧
        (∀ request ∈ requests, request.inputIndex < tx.inputs.length) ∧
        next = tx.fulfil tx requests) ∧
    (InPlace.signInputs requests).run tx =
      match tx.signInputs requests with
      | .ok next => .ok () next
      | .error error => .error (.refused error) tx := by
  exact ⟨fun index => signInputs_eq_duplicateInput_iff,
    exists_signInputs_eq_duplicateInput_iff,
    fun index count => signInputs_eq_inputIndexOutOfRange_iff,
    fun next => signInputs_eq_ok_iff, InPlace.run_signInputs tx requests⟩

end CoinSpend
