import CoinSpend.InputSigning
import CoinSpend.Proofs.Commitment
import Mathlib.Data.List.Nodup

/-!
# Runs of signing calls

Signing reads a transaction without its unlocking scripts and writes only these.
So what a run of calls leaves behind is determined, input by input, by the last
request that was fulfilled there, and each of these is answered as if it had come
first.
-/

namespace CoinSpend

/-- The requests of a call, in their order. -/
def SigningCall.requests : SigningCall → List SigningRequest
  | .single request => [request]
  | .batch requests => requests

namespace Transaction

/-- The transaction with every unlocking script emptied. -/
def unsigned (tx : Transaction) : Transaction :=
  { tx with
    inputs := tx.inputs.map fun input => { input with unlocking := .empty } }

/-- The requests that a run of calls fulfils, in their order.  A call that fails
fulfils none. -/
def fulfilled : Transaction → List SigningCall → List SigningRequest
  | _, [] => []
  | tx, call :: calls =>
      match tx.sign call with
      | .ok next => call.requests ++ next.fulfilled calls
      | .error _ => tx.fulfilled calls

/-- The last request that a run of calls fulfils for an input. -/
def lastFulfilled? (tx : Transaction) (calls : List SigningCall)
    (index : Nat) : Option SigningRequest :=
  (tx.fulfilled calls).reverse.find? fun request =>
    request.inputIndex == index

section Unsigned

variable (tx : Transaction) (index : Nat) (type : HashType)
  (scriptCode : Script)

theorem preparedInput_emptied (place : Nat) (input : TxInput) :
    preparedInput index type scriptCode place
        { input with unlocking := .empty } =
      preparedInput index type scriptCode place input :=
  preparedInput_congr rfl fun _ => rfl

theorem committedInputs_unsigned :
    tx.unsigned.committedInputs index type scriptCode =
      tx.committedInputs index type scriptCode := by
  have prepared : tx.unsigned.inputs.mapIdx
        (preparedInput index type scriptCode) =
      tx.inputs.mapIdx (preparedInput index type scriptCode) := by
    apply List.ext_getElem?
    intro place
    simp [unsigned, Function.comp_def, preparedInput_emptied]
  show (if type.anyoneCanPay then (tx.unsigned.inputs.mapIdx
      (preparedInput index type scriptCode))[index]?.toList
    else tx.unsigned.inputs.mapIdx (preparedInput index type scriptCode)) = _
  rw [prepared]
  rfl

theorem signatureHash_unsigned :
    tx.unsigned.signatureHash index type scriptCode =
      tx.signatureHash index type scriptCode := by
  have copyEq : tx.unsigned.committedCopy index type scriptCode =
      tx.committedCopy index type scriptCode := by
    unfold committedCopy
    rw [committedInputs_unsigned]
    rfl
  have lengthEq : tx.unsigned.inputs.length = tx.inputs.length :=
    List.length_map _
  unfold signatureHash signaturePreimage
  rw [copyEq, lengthEq]
  rfl

/-- The digest to be signed is a function of the unsigned transaction. -/
theorem signatureHash_congr {first second : Transaction}
    (same : first.unsigned = second.unsigned) :
    first.signatureHash = second.signatureHash := by
  funext index type scriptCode
  rw [← signatureHash_unsigned first, same, signatureHash_unsigned second]

theorem unlockingScript_congr {first second : Transaction}
    (same : first.unsigned = second.unsigned) :
    first.unlockingScript = second.unlockingScript := by
  funext request
  unfold unlockingScript
  rw [signatureHash_congr same]

theorem frame_congr {first second : Transaction}
    (same : first.unsigned = second.unsigned) :
    first.version = second.version ∧ first.outputs = second.outputs ∧
      first.lockTime = second.lockTime := by
  simp only [unsigned, Transaction.mk.injEq] at same
  exact ⟨same.1, same.2.2.1, same.2.2.2⟩

theorem length_inputs_congr {first second : Transaction}
    (same : first.unsigned = second.unsigned) :
    first.inputs.length = second.inputs.length := by
  simpa [unsigned] using
    congrArg (fun tx : Transaction => tx.inputs.length) same

end Unsigned

theorem unsigned_setUnlocking (tx : Transaction) (index : Nat)
    (script : Script) :
    (tx.setUnlocking index script).unsigned = tx.unsigned := by
  unfold unsigned setUnlocking modifyInput
  congr 1
  apply List.ext_getElem?
  intro place
  simp only [List.getElem?_map, List.getElem?_modify]
  cases tx.inputs[place]? with
  | none => rfl
  | some input =>
      by_cases written : index = place <;> simp [written]

/-- Writing an unlocking script leaves every digest to be signed as it was. -/
theorem signatureHash_setUnlocking (tx : Transaction) (index : Nat)
    (script : Script) :
    (tx.setUnlocking index script).signatureHash = tx.signatureHash :=
  signatureHash_congr (tx.unsigned_setUnlocking index script)

theorem signatureHash_of_le {tx : Transaction} {index : Nat}
    (outside : tx.inputs.length ≤ index) (type : HashType)
    (scriptCode : Script) :
    tx.signatureHash index type scriptCode =
      .error (.inputIndexOutOfRange index tx.inputs.length) := by
  unfold signatureHash
  rw [if_pos outside]

theorem exists_signatureHash_of_lt {tx : Transaction} {index : Nat}
    (inside : index < tx.inputs.length) (type : HashType)
    (scriptCode : Script) :
    ∃ digest, tx.signatureHash index type scriptCode = .ok digest := by
  unfold signatureHash
  rw [if_neg (Nat.not_le.mpr inside)]
  split
  · exact ⟨_, rfl⟩
  · exact ⟨_, rfl⟩

/-- The script that fulfils a request, empty where there is none. -/
def scriptFor (tx : Transaction) (request : SigningRequest) : Script :=
  match tx.unlockingScript request with
  | .ok script => script
  | .error _ => .empty

theorem unlockingScript_of_le {tx : Transaction} {request : SigningRequest}
    (outside : tx.inputs.length ≤ request.inputIndex) :
    tx.unlockingScript request =
      .error (.inputIndexOutOfRange request.inputIndex tx.inputs.length) := by
  unfold unlockingScript
  rw [signatureHash_of_le outside]
  rfl

theorem unlockingScript_of_lt {tx : Transaction} {request : SigningRequest}
    (inside : request.inputIndex < tx.inputs.length) :
    tx.unlockingScript request = .ok (tx.scriptFor request) := by
  obtain ⟨digest, digestEq⟩ := exists_signatureHash_of_lt inside request.type
    request.locking
  unfold scriptFor unlockingScript
  rw [digestEq]
  rfl

theorem scriptFor_congr {first second : Transaction}
    (same : first.unsigned = second.unsigned) :
    first.scriptFor = second.scriptFor := by
  funext request
  rw [scriptFor, unlockingScript_congr same, scriptFor]

/-- Write the scripts that fulfil the requests against another transaction. -/
def fulfil (base tx : Transaction) (requests : List SigningRequest) :
    Transaction :=
  requests.foldl (fun signed request =>
    signed.setUnlocking request.inputIndex (base.scriptFor request)) tx

theorem fulfil_congr {first second : Transaction}
    (same : first.unsigned = second.unsigned) :
    first.fulfil = second.fulfil := by
  funext tx requests
  unfold fulfil
  rw [scriptFor_congr same]

theorem fulfil_append (base tx : Transaction)
    (first second : List SigningRequest) :
    base.fulfil tx (first ++ second) =
      base.fulfil (base.fulfil tx first) second :=
  List.foldl_append

theorem unsigned_fulfil (base tx : Transaction)
    (requests : List SigningRequest) :
    (base.fulfil tx requests).unsigned = tx.unsigned := by
  induction requests generalizing tx with
  | nil => rfl
  | cons request requests ih =>
      rw [fulfil, List.foldl_cons]
      exact (ih _).trans (unsigned_setUnlocking tx _ _)

theorem signInput_of_lt {tx : Transaction} {request : SigningRequest}
    (inside : request.inputIndex < tx.inputs.length) :
    tx.signInput request = .ok (tx.fulfil tx [request]) := by
  unfold signInput
  rw [unlockingScript_of_lt inside]
  rfl

theorem signInput_of_le {tx : Transaction} {request : SigningRequest}
    (outside : tx.inputs.length ≤ request.inputIndex) :
    tx.signInput request =
      .error (.inputIndexOutOfRange request.inputIndex tx.inputs.length) := by
  unfold signInput
  rw [unlockingScript_of_le outside]
  rfl

theorem firstRepeated?_eq_none_iff (seen rest : List Nat) :
    firstRepeated? seen rest = none ↔
      rest.Nodup ∧ ∀ index ∈ rest, index ∉ seen := by
  induction rest generalizing seen with
  | nil => simp [firstRepeated?]
  | cons index rest ih =>
      unfold firstRepeated?
      by_cases repeated : index ∈ seen
      · simp [repeated]
      · rw [if_neg repeated, ih, List.nodup_cons]
        constructor
        · rintro ⟨distinct, fresh⟩
          refine ⟨⟨?_, distinct⟩, ?_⟩
          · intro member
            exact fresh index member List.mem_cons_self
          · intro other otherMem
            rcases List.mem_cons.mp otherMem with rfl | otherMem
            · exact repeated
            · exact fun otherSeen =>
                fresh other otherMem (List.mem_cons_of_mem _ otherSeen)
        · rintro ⟨⟨absent, distinct⟩, fresh⟩
          refine ⟨distinct, fun other otherMem otherSeen => ?_⟩
          rcases List.mem_cons.mp otherSeen with rfl | otherSeen
          · exact absent otherMem
          · exact fresh other (List.mem_cons_of_mem _ otherMem) otherSeen

theorem firstRepeated?_nil_eq_none_iff (indices : List Nat) :
    firstRepeated? [] indices = none ↔ indices.Nodup := by
  rw [firstRepeated?_eq_none_iff]
  exact and_iff_left fun index _ => List.not_mem_nil

/-- The scripts of a batch, or the failure of its first request without an
input. -/
theorem mapM_unlockingScript (tx : Transaction)
    (requests : List SigningRequest) :
    requests.mapM tx.unlockingScript =
      match requests.find? fun request =>
          decide (tx.inputs.length ≤ request.inputIndex) with
      | none => .ok (requests.map tx.scriptFor)
      | some request =>
          .error (.inputIndexOutOfRange request.inputIndex
            tx.inputs.length) := by
  induction requests with
  | nil => rfl
  | cons request requests ih =>
      rw [List.mapM_cons]
      rcases Nat.lt_or_ge request.inputIndex tx.inputs.length with
        inside | outside
      · have notOutside : ¬ tx.inputs.length ≤ request.inputIndex :=
          Nat.not_le.mpr inside
        rw [unlockingScript_of_lt inside, ih,
          List.find?_cons_of_neg (by simpa using notOutside)]
        cases requests.find? fun request =>
            decide (tx.inputs.length ≤ request.inputIndex) with
        | none => rfl
        | some failing => rfl
      · rw [unlockingScript_of_le outside,
          List.find?_cons_of_pos (by simpa using outside)]
        rfl

theorem foldl_zip_scriptFor (base tx : Transaction)
    (requests : List SigningRequest) :
    (requests.zip (requests.map base.scriptFor)).foldl
        (fun signed (request, script) =>
          signed.setUnlocking request.inputIndex script) tx =
      base.fulfil tx requests := by
  induction requests generalizing tx with
  | nil => rfl
  | cons request requests ih => exact ih _

/-- A batch is answered by its first repeated index, then by its first request
without an input, and else signed. -/
theorem signInputs_eq_match (tx : Transaction)
    (requests : List SigningRequest) :
    tx.signInputs requests =
      match firstRepeated? [] (requests.map SigningRequest.inputIndex),
        requests.find? fun request =>
          decide (tx.inputs.length ≤ request.inputIndex) with
      | some index, _ => .error (.duplicateInput index)
      | none, some request =>
          .error (.inputIndexOutOfRange request.inputIndex tx.inputs.length)
      | none, none => .ok (tx.fulfil tx requests) := by
  unfold signInputs
  rw [mapM_unlockingScript]
  cases firstRepeated? [] (requests.map SigningRequest.inputIndex) with
  | some index => rfl
  | none =>
      cases requests.find? fun request =>
          decide (tx.inputs.length ≤ request.inputIndex) with
      | some request => rfl
      | none => exact congrArg Except.ok (foldl_zip_scriptFor tx tx requests)

/-- A batch is signed exactly when its inputs are distinct and all there. -/
theorem signInputs_eq_ok_iff {tx next : Transaction}
    {requests : List SigningRequest} :
    tx.signInputs requests = .ok next ↔
      (requests.map SigningRequest.inputIndex).Nodup ∧
        (∀ request ∈ requests, request.inputIndex < tx.inputs.length) ∧
        next = tx.fulfil tx requests := by
  have insideIff : (requests.find? fun request =>
        decide (tx.inputs.length ≤ request.inputIndex)) = none ↔
      ∀ request ∈ requests, request.inputIndex < tx.inputs.length := by
    simp
  rw [signInputs_eq_match, ← firstRepeated?_nil_eq_none_iff, ← insideIff]
  cases firstRepeated? [] (requests.map SigningRequest.inputIndex) with
  | some index => simp
  | none =>
      cases requests.find? fun request =>
          decide (tx.inputs.length ≤ request.inputIndex) with
      | some request => simp
      | none => simp [eq_comm]

/-- What a successful call does.  It is a single request or a batch of distinct
ones, and its requests are all answered against the transaction before it. -/
theorem eq_fulfil_of_sign {tx next : Transaction} {call : SigningCall}
    (signed : tx.sign call = .ok next) :
    (call.requests.map SigningRequest.inputIndex).Nodup ∧
      (∀ request ∈ call.requests,
        request.inputIndex < tx.inputs.length) ∧
      next = tx.fulfil tx call.requests := by
  cases call with
  | single request =>
      rcases Nat.lt_or_ge request.inputIndex tx.inputs.length with
        inside | outside
      · change tx.signInput request = .ok next at signed
        rw [signInput_of_lt inside] at signed
        refine ⟨List.nodup_singleton _, ?_, (Except.ok.inj signed).symm⟩
        simpa [SigningCall.requests] using inside
      · change tx.signInput request = .ok next at signed
        rw [signInput_of_le outside] at signed
        contradiction
  | batch requests => exact signInputs_eq_ok_iff.mp signed

theorem signAll_cons (tx : Transaction) (call : SigningCall)
    (calls : List SigningCall) :
    tx.signAll (call :: calls) =
      match tx.sign call with
      | .ok next => next.signAll calls
      | .error _ => tx.signAll calls := by
  unfold signAll
  rw [List.foldl_cons]
  cases tx.sign call <;> rfl

/-- The invariant of a run: what it has left behind is the transaction it
started from with the fulfilled requests written, each as it is answered
there. -/
theorem signAll_eq_fulfil (tx : Transaction) (calls : List SigningCall) :
    tx.signAll calls = tx.fulfil tx (tx.fulfilled calls) ∧
      ∀ request ∈ tx.fulfilled calls,
        request.inputIndex < tx.inputs.length := by
  induction calls generalizing tx with
  | nil => exact ⟨rfl, by simp [fulfilled]⟩
  | cons call calls ih =>
      rw [signAll_cons, fulfilled]
      cases signed : tx.sign call with
      | error error => exact ih tx
      | ok next =>
          obtain ⟨-, inside, rfl⟩ := eq_fulfil_of_sign signed
          have same := unsigned_fulfil tx tx call.requests
          obtain ⟨runEq, runInside⟩ := ih (tx.fulfil tx call.requests)
          constructor
          · show (tx.fulfil tx call.requests).signAll calls = _
            rw [runEq, fulfil_congr same, ← fulfil_append]
          · intro request requestMem
            rcases List.mem_append.mp requestMem with first | later
            · exact inside request first
            · rw [← length_inputs_congr same]
              exact runInside request later

/-- Each input ends with the script of the last request for it. -/
theorem getElem?_inputs_fulfil (base tx : Transaction)
    (requests : List SigningRequest) (index : Nat) :
    (base.fulfil tx requests).inputs[index]? =
      tx.inputs[index]?.map fun input =>
        match requests.reverse.find? fun request =>
            request.inputIndex == index with
        | none => input
        | some request =>
            { input with unlocking := base.scriptFor request } := by
  induction requests generalizing tx with
  | nil => simp [fulfil]
  | cons request requests ih =>
      rw [fulfil, List.foldl_cons]
      refine (ih _).trans ?_
      rw [List.reverse_cons, List.find?_append]
      simp only [setUnlocking, modifyInput, List.getElem?_modify]
      cases tx.inputs[index]? with
      | none => rfl
      | some input =>
          cases requests.reverse.find? fun request =>
              request.inputIndex == index with
          | some later => by_cases here : request.inputIndex = index <;>
              simp [here]
          | none => by_cases here : request.inputIndex = index <;>
              simp [here]

theorem unsigned_signAll (tx : Transaction) (calls : List SigningCall) :
    (tx.signAll calls).unsigned = tx.unsigned := by
  rw [(tx.signAll_eq_fulfil calls).1, unsigned_fulfil]

section LastFulfilled

variable {tx : Transaction} {calls : List SigningCall} {index : Nat}

theorem inputs_signAll_of_none (last : tx.lastFulfilled? calls index = none) :
    (tx.signAll calls).inputs[index]? = tx.inputs[index]? := by
  unfold lastFulfilled? at last
  rw [(tx.signAll_eq_fulfil calls).1, getElem?_inputs_fulfil, last]
  simp

/-- The last request for an input is for an input that is there, and is answered
as if it had come first. -/
theorem inputs_signAll_of_some {request : SigningRequest}
    (last : tx.lastFulfilled? calls index = some request) :
    request.inputIndex = index ∧ index < tx.inputs.length ∧
      ∃ input script, tx.inputs[index]? = some input ∧
        tx.unlockingScript request = .ok script ∧
        (tx.signAll calls).inputs[index]? =
          some { input with unlocking := script } := by
  unfold lastFulfilled? at last
  obtain ⟨runEq, runInside⟩ := tx.signAll_eq_fulfil calls
  have member := List.mem_reverse.mp (List.mem_of_find?_eq_some last)
  have atIndex : request.inputIndex = index := by
    simpa using List.find?_some last
  have requestInside := runInside request member
  have inside : index < tx.inputs.length := atIndex ▸ requestInside
  have located := List.getElem?_eq_getElem inside
  refine ⟨atIndex, inside, _, tx.scriptFor request, located,
    unlockingScript_of_lt requestInside, ?_⟩
  rw [runEq, getElem?_inputs_fulfil, last, located, Option.map_some]

end LastFulfilled

theorem setUnlocking_comm (tx : Transaction) {firstIndex secondIndex : Nat}
    (distinct : firstIndex ≠ secondIndex) (first second : Script) :
    (tx.setUnlocking firstIndex first).setUnlocking secondIndex second =
      (tx.setUnlocking secondIndex second).setUnlocking firstIndex first := by
  unfold setUnlocking modifyInput
  congr 1
  apply List.ext_getElem?
  intro place
  simp only [List.getElem?_modify]
  cases tx.inputs[place]? with
  | none => rfl
  | some input =>
      by_cases atFirst : firstIndex = place
      · have notSecond : secondIndex ≠ place := fun atSecond =>
          distinct (atFirst.trans atSecond.symm)
        simp [atFirst, notSecond]
      · simp [atFirst]

/-- Requests for distinct inputs can be written in any order. -/
theorem fulfil_perm {base tx : Transaction}
    {first second : List SigningRequest} (perm : first.Perm second)
    (distinct : (first.map SigningRequest.inputIndex).Nodup) :
    base.fulfil tx first = base.fulfil tx second := by
  refine perm.foldl_eq' ?_ tx
  intro request requestMem other otherMem signed
  by_cases sameIndex : request.inputIndex = other.inputIndex
  · have same : request = other :=
      List.inj_on_of_nodup_map distinct requestMem otherMem sameIndex
    rw [same]
  · exact setUnlocking_comm signed sameIndex _ _

/-- Signing one by one, beginning with any transaction that differs only in
unlocking scripts. -/
theorem foldlM_signInput {base tx : Transaction}
    (same : tx.unsigned = base.unsigned) {requests : List SigningRequest}
    (inside : ∀ request ∈ requests,
      request.inputIndex < base.inputs.length) :
    requests.foldlM signInput tx = .ok (base.fulfil tx requests) := by
  induction requests generalizing tx with
  | nil => rfl
  | cons request requests ih =>
      obtain ⟨firstInside, restInside⟩ := List.forall_mem_cons.mp inside
      rw [← length_inputs_congr same] at firstInside
      rw [List.foldlM_cons, signInput_of_lt firstInside, fulfil_congr same]
      exact ih ((unsigned_fulfil base tx [request]).trans same) restInside

/-- What a run of signing calls leaves behind, why the order of a batch does not
matter, and what an answer depends on. -/
theorem signAll_determined (tx : Transaction) (calls : List SigningCall) :
    ((tx.signAll calls).version = tx.version ∧
      (tx.signAll calls).outputs = tx.outputs ∧
      (tx.signAll calls).lockTime = tx.lockTime ∧
      ∀ index,
        match tx.lastFulfilled? calls index with
        | none => (tx.signAll calls).inputs[index]? = tx.inputs[index]?
        | some request =>
            ∃ input script, tx.inputs[index]? = some input ∧
              tx.unlockingScript request = .ok script ∧
              (tx.signAll calls).inputs[index]? =
                some { input with unlocking := script }) ∧
    (∀ requests next, tx.signInputs requests = .ok next →
      ∀ order : List SigningRequest, order.Perm requests →
        order.foldlM signInput tx = .ok next) ∧
    ∀ other : Transaction, other.unsigned = tx.unsigned →
      ∀ request, other.unlockingScript request =
        tx.unlockingScript request := by
  obtain ⟨versionEq, outputsEq, lockTimeEq⟩ :=
    frame_congr (tx.unsigned_signAll calls)
  refine ⟨⟨versionEq, outputsEq, lockTimeEq, fun index => ?_⟩, ?_, ?_⟩
  · cases last : tx.lastFulfilled? calls index with
    | none => exact inputs_signAll_of_none last
    | some request => exact (inputs_signAll_of_some last).2.2
  · intro requests next signed order perm
    obtain ⟨distinct, inside, rfl⟩ := signInputs_eq_ok_iff.mp signed
    have orderInside : ∀ request ∈ order,
        request.inputIndex < tx.inputs.length :=
      fun request requestMem => inside request (perm.mem_iff.mp requestMem)
    rw [foldlM_signInput rfl orderInside, fulfil_perm perm.symm distinct]
  · intro other sameUnsigned request
    rw [unlockingScript_congr sameUnsigned]

/-- A batch, a batch that fails for want of an input, and a second signature of
the first input, which alone is kept there.  The batch that succeeds can be
signed one by one the other way round, and what the run has written does not
change the answers to its requests. -/
theorem signAll_determined_of_resigned_input :
    let input (place : UInt32) : TxInput :=
      ⟨⟨missingOutputDigest, place⟩, .empty, 0⟩
    let tx : Transaction := ⟨1, [input 0, input 1], [blankOutput], 0⟩
    let key : PrivateKey := ⟨1, true, .mainnet, by decide⟩
    let first : SigningRequest := ⟨0, ⟨.single, false⟩, key, ⟨[0xac]⟩⟩
    let second : SigningRequest := ⟨1, ⟨.single, true⟩, key, .empty⟩
    let lost : SigningRequest := { first with type := ⟨.none, true⟩ }
    let missing : SigningRequest := ⟨2, .all, key, .empty⟩
    let again : SigningRequest := { first with type := .all }
    let calls : List SigningCall :=
      [.batch [second, first], .batch [lost, missing], .single again]
    tx.lastFulfilled? calls 0 = some again ∧
      (∃ script, tx.unlockingScript again = .ok script ∧
        (tx.signAll calls).inputs[0]? =
          some { input 0 with unlocking := script }) ∧
      (tx.signAll calls).outputs = [blankOutput] ∧
      (∃ next, tx.signInputs [second, first] = .ok next ∧
        [first, second].Perm [second, first] ∧
        [first, second].foldlM signInput tx = .ok next) ∧
      (tx.signAll calls).unsigned = tx.unsigned ∧
      (tx.signAll calls).unlockingScript second =
        tx.unlockingScript second := by
  intro input tx key first second lost missing again calls
  obtain ⟨⟨-, outputsEq, -, inputsEq⟩, anyOrder, sameAnswers⟩ :=
    signAll_determined tx calls
  have last : tx.lastFulfilled? calls 0 = some again := by rfl
  have replaced := inputsEq 0
  rw [last] at replaced
  obtain ⟨old, script, located, unlocked, written⟩ := replaced
  obtain rfl : input 0 = old := Option.some.inj located
  have signed : tx.signInputs [second, first] =
      .ok (tx.fulfil tx [second, first]) :=
    signInputs_eq_ok_iff.mpr ⟨by decide, by decide, rfl⟩
  have perm : [first, second].Perm [second, first] := List.Perm.swap _ _ _
  have same := tx.unsigned_signAll calls
  exact ⟨last, ⟨script, unlocked, written⟩, outputsEq,
    ⟨_, signed, perm, anyOrder _ _ signed _ perm⟩, same,
    sameAnswers _ same second⟩

end Transaction

end CoinSpend
