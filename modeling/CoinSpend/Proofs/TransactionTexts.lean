import CoinSpend.Proofs.JsonForm
import CoinSpend.TransactionJson

/-!
# Transactions and their JSON texts

Data of a kind is represented faithfully if its JSON values are well formed and
give the data back.  Numbers are, since each is below the bound of its type, and
lists are if their items are.  The names of a record's fields are plain and
distinct, so that every field is found again.  In this way a transaction is read
back from its text.
-/

namespace CoinSpend

namespace Json

/-- A kind of data whose values are well formed and give the data back. -/
structure IsFaithful {Datum : Type} (toJson : Datum → Json)
    (ofJson? : Json → Option Datum) : Prop where
  wellFormed (datum : Datum) : (toJson datum).WellFormed
  ofJson?_toJson (datum : Datum) : ofJson? (toJson datum) = some datum

/-! ## Numbers and lists -/

theorem wellFormed_ofNat (number : Nat) : (ofNat number).WellFormed :=
  .number (isNumber_naturalLiteral number)

theorem natural?_ofNat {bound number : Nat} (bounded : number < bound) :
    natural? bound (ofNat number) = some number := by
  simp [natural?, ofNat, literalNatural?_naturalLiteral, bounded]

theorem isFaithful_byte :
    IsFaithful (fun byte : UInt8 => ofNat byte.toNat) byte? where
  wellFormed byte := wellFormed_ofNat byte.toNat
  ofJson?_toJson byte := by simp [byte?, natural?_ofNat byte.toNat_lt]

theorem word32?_ofNat (word : UInt32) :
    word32? (ofNat word.toNat) = some word := by
  simp [word32?, natural?_ofNat word.toNat_lt_size]

theorem word64?_ofNat (word : UInt64) :
    word64? (ofNat word.toNat) = some word := by
  simp [word64?, natural?_ofNat word.toNat_lt_size]

theorem mapM_map_eq_some {First Second Third : Type} {items : List First}
    {write : First → Second} {read? : Second → Option Third}
    {result : First → Third}
    (each : ∀ item ∈ items, read? (write item) = some (result item)) :
    (items.map write).mapM read? = some (items.map result) := by
  induction items with
  | nil => rfl
  | cons item items ih =>
      obtain ⟨here, there⟩ := List.forall_mem_cons.mp each
      simp [List.mapM_cons, here, ih there]

namespace IsFaithful

variable {Datum : Type} {toJson : Datum → Json} {ofJson? : Json → Option Datum}

theorem wellFormed_list (faithful : IsFaithful toJson ofJson?)
    (data : List Datum) : (array (data.map toJson)).WellFormed := by
  apply WellFormed.array
  intro item itemMem
  obtain ⟨datum, -, rfl⟩ := List.mem_map.mp itemMem
  exact faithful.wellFormed datum

theorem mapM_map_toJson (faithful : IsFaithful toJson ofJson?)
    (data : List Datum) : (data.map toJson).mapM ofJson? = some data := by
  have read : (data.map toJson).mapM ofJson? = some (data.map id) :=
    mapM_map_eq_some fun datum _ => faithful.ofJson?_toJson datum
  rw [read, List.map_id]

end IsFaithful

theorem wellFormed_ofBytes (bytes : Bytes) : (ofBytes bytes).WellFormed :=
  isFaithful_byte.wellFormed_list bytes

theorem bytes?_ofBytes (bytes : Bytes) : bytes? (ofBytes bytes) = some bytes :=
  isFaithful_byte.mapM_map_toJson bytes

/-! ## Records -/

/-- Names that are written as they are and tell the fields of a record apart. -/
def AreFieldNames (names : List String) : Prop :=
  (∀ name ∈ names, IsPlain name.toList) ∧ names.Nodup

section Records

variable {names : List String} {fields : List (String × Json)}

theorem wellFormed_record (fieldNames : AreFieldNames names)
    (named : fields.map Prod.fst = names)
    (values : ∀ field ∈ fields, field.2.WellFormed) :
    (record fields).WellFormed := by
  apply WellFormed.object
  · intro member memberMem
    obtain ⟨field, fieldMem, rfl⟩ := List.mem_map.mp memberMem
    have nameMem : field.1 ∈ names := named ▸ List.mem_map_of_mem fieldMem
    exact (fieldNames.1 field.1 nameMem).isString
  · intro member memberMem
    obtain ⟨field, fieldMem, rfl⟩ := List.mem_map.mp memberMem
    exact values field fieldMem

theorem filter_eq_singleton_of_mem (distinct : (fields.map Prod.fst).Nodup)
    {field : String × Json} (fieldMem : field ∈ fields) :
    fields.filter (·.1 == field.1) = [field] := by
  induction fields with
  | nil => contradiction
  | cons first fields ih =>
      rw [List.map_cons, List.nodup_cons] at distinct
      obtain ⟨firstNew, distinct⟩ := distinct
      rcases List.mem_cons.mp fieldMem with rfl | fieldMem
      · have others : fields.filter (·.1 == field.1) = [] := by
          rw [List.filter_eq_nil_iff]
          intro other otherMem sameName
          rw [← beq_iff_eq.mp sameName] at firstNew
          exact firstNew (List.mem_map_of_mem otherMem)
        rw [List.filter_cons_of_pos (by simp), others]
      · have otherName : first.1 ≠ field.1 := fun sameName =>
          firstNew (sameName ▸ List.mem_map_of_mem fieldMem)
        rw [List.filter_cons_of_neg (by simpa using otherName),
          ih distinct fieldMem]

/-- The fields of a record are found by their names. -/
theorem fields?_record (fieldNames : AreFieldNames names)
    (named : fields.map Prod.fst = names) :
    fields? names (record fields) = some (fields.map Prod.snd) := by
  subst named
  obtain ⟨plain, distinct⟩ := fieldNames
  have keyed : (fields.map fun field => (field.1.toList, field.2)).mapM
      (fun member => do return (← contents? member.1, member.2)) =
        some (fields.map id) := by
    apply mapM_map_eq_some
    intro field fieldMem
    simp [contents?_toList (plain field.1 (List.mem_map_of_mem fieldMem))]
  rw [record, fields?, keyed, Option.bind_eq_bind, Option.bind_some,
    List.map_id]
  apply mapM_map_eq_some
  intro field fieldMem
  simp [filter_eq_singleton_of_mem distinct fieldMem]

end Records

end Json

open Json

theorem OutPoint.isFaithful :
    IsFaithful OutPoint.toJson OutPoint.ofJson? := by
  have names : AreFieldNames ["hash", "index"] := by
    simp [AreFieldNames, IsPlain]
  refine ⟨fun place => ?_, fun place => ?_⟩
  · apply wellFormed_record names rfl
    simp [wellFormed_ofBytes, wellFormed_ofNat]
  · have hash : FixedBytes.ofBytes? 32 place.hash.toBytes = some place.hash :=
      FixedBytes.ofBytes?_eq_some_iff.mpr rfl
    simp [toJson, ofJson?, fields?_record names, bytes?_ofBytes, hash,
      word32?_ofNat]

theorem TxInput.isFaithful : IsFaithful TxInput.toJson TxInput.ofJson? := by
  have names : AreFieldNames ["prevout", "script_sig", "sequence"] := by
    simp [AreFieldNames, IsPlain]
  refine ⟨fun input => ?_, fun input => ?_⟩
  · apply wellFormed_record names rfl
    simp [OutPoint.isFaithful.wellFormed, wellFormed_ofBytes, wellFormed_ofNat]
  · simp [toJson, ofJson?, fields?_record names,
      OutPoint.isFaithful.ofJson?_toJson, bytes?_ofBytes, word32?_ofNat]

theorem TxOutput.isFaithful :
    IsFaithful TxOutput.toJson TxOutput.ofJson? := by
  have names : AreFieldNames ["value", "script_pubkey"] := by
    simp [AreFieldNames, IsPlain]
  refine ⟨fun output => ?_, fun output => ?_⟩
  · apply wellFormed_record names rfl
    simp [wellFormed_ofBytes, wellFormed_ofNat]
  · simp [toJson, ofJson?, fields?_record names, bytes?_ofBytes, word64?_ofNat]

namespace Transaction

theorem isFaithful : IsFaithful toJson ofJson? := by
  have names : AreFieldNames ["version", "inputs", "outputs", "lock_time"] := by
    simp [AreFieldNames, IsPlain]
  refine ⟨fun tx => ?_, fun tx => ?_⟩
  · apply wellFormed_record names rfl
    simp [TxInput.isFaithful.wellFormed_list,
      TxOutput.isFaithful.wellFormed_list, wellFormed_ofNat]
  · simp [toJson, ofJson?, fields?_record names, items?, word32?_ofNat,
      TxInput.isFaithful.mapM_map_toJson, TxOutput.isFaithful.mapM_map_toJson]

/-- The text of a transaction is a JSON text of its record, the transaction is
read back from it, and what was read has the same text again. -/
theorem ofJsonText?_toJsonText (tx : Transaction) :
    Json.ofText? tx.toJsonText = some tx.toJson ∧
      ofJsonText? tx.toJsonText = some tx ∧
      (ofJsonText? tx.toJsonText).map toJsonText = some tx.toJsonText := by
  have isJson : Json.ofText? tx.toJsonText = some tx.toJson :=
    (isFaithful.wellFormed tx).ofText?_toText
  have readBack : ofJsonText? tx.toJsonText = some tx := by
    rw [ofJsonText?, isJson, Option.bind_eq_bind, Option.bind_some,
      isFaithful.ofJson?_toJson]
  exact ⟨isJson, readBack, by rw [readBack, Option.map_some]⟩

end Transaction

end CoinSpend
