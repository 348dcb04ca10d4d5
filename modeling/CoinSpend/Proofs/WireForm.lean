import CoinSpend.Proofs.CountedReading

/-!
# The wire form of a transaction is unique

Every transaction whose counts fit their fields has a wire form, every byte
string that is accepted is the wire form of the transaction it is read as, and
wire forms are self-delimiting.
-/

namespace CoinSpend

/-- The length of the unlocking script can be written. -/
def TxInput.WireSized (input : TxInput) : Prop :=
  input.unlocking.size < 2 ^ 64

/-- The length of the locking script can be written. -/
def TxOutput.WireSized (output : TxOutput) : Prop :=
  output.locking.size < 2 ^ 64

/-- Every count of the wire form can be written. -/
structure Transaction.WireSized (tx : Transaction) : Prop where
  inputs_length_lt : tx.inputs.length < 2 ^ 64
  inputs_sized : ∀ input ∈ tx.inputs, input.WireSized
  outputs_length_lt : tx.outputs.length < 2 ^ 64
  outputs_sized : ∀ output ∈ tx.outputs, output.WireSized

instance (input : TxInput) : Decidable input.WireSized :=
  inferInstanceAs (Decidable (_ < _))

instance (output : TxOutput) : Decidable output.WireSized :=
  inferInstanceAs (Decidable (_ < _))

instance (tx : Transaction) : Decidable tx.WireSized :=
  decidable_of_iff
    (tx.inputs.length < 2 ^ 64 ∧ (∀ input ∈ tx.inputs, input.WireSized) ∧
      tx.outputs.length < 2 ^ 64 ∧ ∀ output ∈ tx.outputs, output.WireSized)
    ⟨fun ⟨inputsBound, inputsSized, outputsBound, outputsSized⟩ =>
      ⟨inputsBound, inputsSized, outputsBound, outputsSized⟩,
    fun sized => ⟨sized.inputs_length_lt, sized.inputs_sized,
      sized.outputs_length_lt, sized.outputs_sized⟩⟩

theorem OutPoint.read_exact :
    OutPoint.read.Exact OutPoint.toBytes fun _ => True := by
  have exact : OutPoint.read.Exact _ fun _ => True :=
    (readFixed_exact 32).bind OutPoint.hash (fun _ _ => trivial) fun hash _ =>
    readUInt32_exact.bind OutPoint.index (fun _ _ => trivial) fun index _ =>
    Reading.Exact.pure fun place => by
      cases place
      simp
  exact exact.congr (fun _ => Iff.rfl) fun place _ => by
    simp [OutPoint.toBytes]

theorem TxInput.read_exact :
    TxInput.read.Exact TxInput.toBytes TxInput.WireSized := by
  have exact : TxInput.read.Exact _ TxInput.WireSized :=
    OutPoint.read_exact.bind TxInput.prevout (fun _ _ => trivial)
      fun prevout _ =>
    readLengthPrefixed_exact.bind (fun input : TxInput =>
      input.unlocking.toBytes) (fun _ valid => valid.1) fun unlocking bound =>
    readUInt32_exact.bind TxInput.sequence (fun _ _ => trivial)
      fun sequence _ =>
    Reading.Exact.pure fun input => by
      obtain ⟨place, ⟨script⟩, number⟩ := input
      constructor
      · rintro ⟨⟨⟨-, rfl⟩, rfl⟩, rfl⟩
        rfl
      · intro same
        cases same
        exact ⟨⟨⟨bound, rfl⟩, rfl⟩, rfl⟩
  exact exact.congr (fun _ => Iff.rfl) fun input _ => by
    simp [TxInput.toBytes]

theorem TxOutput.read_exact :
    TxOutput.read.Exact TxOutput.toBytes TxOutput.WireSized := by
  have exact : TxOutput.read.Exact _ TxOutput.WireSized :=
    readUInt64_exact.bind TxOutput.value (fun _ _ => trivial) fun value _ =>
    readLengthPrefixed_exact.bind (fun output : TxOutput =>
      output.locking.toBytes) (fun _ valid => valid.1) fun locking bound =>
    Reading.Exact.pure fun output => by
      obtain ⟨amount, ⟨script⟩⟩ := output
      constructor
      · rintro ⟨⟨-, rfl⟩, rfl⟩
        rfl
      · intro same
        cases same
        exact ⟨⟨bound, rfl⟩, rfl⟩
  exact exact.congr (fun _ => Iff.rfl) fun output _ => by
    simp [TxOutput.toBytes]

namespace Transaction

theorem read_exact : read.Exact toBytes WireSized := by
  have exact : read.Exact _ WireSized :=
    readUInt32_exact.bind version (fun _ _ => trivial) fun version _ =>
    (readCountPrefixed_exact TxInput.read_exact).bind inputs
      (fun _ valid => ⟨valid.1.inputs_length_lt, valid.1.inputs_sized⟩)
      fun inputs inputsValid =>
    (readCountPrefixed_exact TxOutput.read_exact).bind outputs
      (fun _ valid => ⟨valid.1.1.outputs_length_lt, valid.1.1.outputs_sized⟩)
      fun outputs outputsValid =>
    readUInt32_exact.bind lockTime (fun _ _ => trivial) fun lockTime _ =>
    Reading.Exact.pure fun tx => by
      constructor
      · cases tx
        rintro ⟨⟨⟨⟨-, rfl⟩, rfl⟩, rfl⟩, rfl⟩
        rfl
      · rintro rfl
        have sized : WireSized ⟨version, inputs, outputs, lockTime⟩ :=
          ⟨inputsValid.1, inputsValid.2, outputsValid.1, outputsValid.2⟩
        exact ⟨⟨⟨⟨sized, rfl⟩, rfl⟩, rfl⟩, rfl⟩
  exact exact.congr (fun _ => Iff.rfl) fun tx _ => by simp [toBytes]

/-- Accepting a byte string means that a transaction is read and nothing is
left. -/
theorem ofBytes_eq_ok_iff_runFrom {bytes : Bytes} {tx : Transaction} :
    ofBytes bytes = .ok tx ↔
      ∃ next, read.runFrom (.start bytes) = (.ok tx, next) ∧
        next.unread = [] := by
  unfold ofBytes
  rcases read.runFrom (.start bytes) with ⟨outcome, next⟩
  cases outcome with
  | error error => simp
  | ok found =>
      by_cases finished : next.unread = []
      · simp only [finished, if_true]
        constructor
        · intro same
          cases same
          exact ⟨next, rfl, finished⟩
        · rintro ⟨_, same, -⟩
          cases same
          rfl
      · simp only [finished, if_false, reduceCtorEq, Prod.mk.injEq, false_iff]
        rintro ⟨other, ⟨-, rfl⟩, otherFinished⟩
        exact finished otherFinished

/-- What is accepted as a transaction is its wire form. -/
theorem wireForm_of_ofBytes {bytes : Bytes} {tx : Transaction}
    (accepted : ofBytes bytes = .ok tx) :
    tx.WireSized ∧ bytes = tx.toBytes := by
  obtain ⟨next, reads, finished⟩ := ofBytes_eq_ok_iff_runFrom.mp accepted
  obtain ⟨sized, unreadEq, -⟩ := (read_exact _ _ _).mp reads
  refine ⟨sized, ?_⟩
  rwa [finished, List.append_nil] at unreadEq

theorem ofBytes_toBytes {tx : Transaction} (sized : tx.WireSized) :
    ofBytes tx.toBytes = .ok tx := by
  apply ofBytes_eq_ok_iff_runFrom.mpr
  refine ⟨⟨tx.toBytes.length, []⟩, (read_exact _ _ _).mpr ⟨sized, ?_, ?_⟩, rfl⟩
  · exact (List.append_nil _).symm
  · exact (Nat.zero_add _).symm

/-- A byte string is accepted as a transaction exactly when it is the wire form
of that transaction, whose counts then fit their fields. -/
theorem ofBytes_eq_ok_iff (bytes : Bytes) (tx : Transaction) :
    ofBytes bytes = .ok tx ↔ tx.WireSized ∧ bytes = tx.toBytes := by
  constructor
  · exact wireForm_of_ofBytes
  · rintro ⟨sized, rfl⟩
    exact ofBytes_toBytes sized

end Transaction

end CoinSpend
