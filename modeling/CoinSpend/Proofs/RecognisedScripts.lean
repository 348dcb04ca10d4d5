import CoinSpend.Proofs.ScriptPatterns

/-!
# Which bytes have a standard pattern

Patterns are found in elements, and elements are found in bytes.  Put together,
a script that pays to a key hash is one of four byte strings, which differ in how
the length of the hash is announced, and no byte string has two patterns.
-/

namespace CoinSpend

/-- Whether the bytes can stand in front of pushed data of the given length. -/
def IsPushHeader (header : Bytes) (length : Nat) : Prop :=
  length < 0x4c ∧ header = [UInt8.ofNat length] ∨
    length < 256 ∧ header = 0x4c :: littleEndian 1 length ∨
    length < 256 ^ 2 ∧ header = 0x4d :: littleEndian 2 length ∨
    length < 256 ^ 4 ∧ header = 0x4e :: littleEndian 4 length

theorem isPushHeader_iff {header : Bytes} {length : Nat} :
    IsPushHeader header length ↔
      ∃ byte form, PushForm.ofByte? byte = some form ∧
        form.Announces length ∧ header = byte :: form.lengthField length := by
  constructor
  · rintro (⟨short, rfl⟩ | ⟨fits, rfl⟩ | ⟨fits, rfl⟩ | ⟨fits, rfl⟩)
    · exact ⟨_, .direct length, PushForm.ofByte?_ofNat short, rfl, rfl⟩
    · exact ⟨0x4c, .field 1, rfl, fits, rfl⟩
    · exact ⟨0x4d, .field 2, rfl, fits, rfl⟩
    · exact ⟨0x4e, .field 4, rfl, fits, rfl⟩
  · rintro ⟨byte, form, formEq, announces, rfl⟩
    rcases PushForm.cases_of_ofByte? formEq with
      ⟨low, rfl⟩ | ⟨rfl, rfl⟩ | ⟨rfl, rfl⟩ | ⟨rfl, rfl⟩
    · obtain rfl : length = byte.toNat := announces
      refine .inl ⟨low, ?_⟩
      rw [UInt8.ofNat_toNat]
      rfl
    · exact .inr (.inl ⟨announces, rfl⟩)
    · exact .inr (.inr (.inl ⟨announces, rfl⟩))
    · exact .inr (.inr (.inr ⟨announces, rfl⟩))

namespace ScriptElement

variable {bytes : Bytes} {elements : List ScriptElement}

theorem allWritten_nil_iff : AllWritten [] bytes ↔ bytes = [] :=
  Iff.rfl

theorem allWritten_cons_op_iff {code : Opcode}
    (canonical : (op code).Canonical) :
    AllWritten (.op code :: elements) bytes ↔
      ∃ rest, AllWritten elements rest ∧ bytes = code.toByte :: rest := by
  constructor
  · rintro ⟨_, rest, ⟨byte, -, rfl, rfl⟩, restWritten, rfl⟩
    rw [Opcode.toByte_ofByte]
    exact ⟨rest, restWritten, rfl⟩
  · rintro ⟨rest, restWritten, rfl⟩
    exact ⟨_, rest, written_toBytes canonical, restWritten, rfl⟩

theorem allWritten_cons_push_iff {data : Bytes} :
    AllWritten (.push data :: elements) bytes ↔
      ∃ header rest, IsPushHeader header data.length ∧
        AllWritten elements rest ∧ bytes = header ++ data ++ rest := by
  simp only [isPushHeader_iff]
  constructor
  · rintro ⟨_, rest, ⟨byte, form, formEq, announces, rfl⟩, restWritten, rfl⟩
    exact ⟨_, rest, ⟨byte, form, formEq, announces, rfl⟩, restWritten, rfl⟩
  · rintro ⟨_, rest, ⟨byte, form, formEq, announces, rfl⟩, restWritten, rfl⟩
    exact ⟨_, rest, ⟨byte, form, formEq, announces, rfl⟩, restWritten, rfl⟩

end ScriptElement

namespace Script

open ScriptElement

/-- The ways to announce the length of a key hash. -/
def keyHashHeaders : List Bytes :=
  [[0x14], [0x4c, 0x14], [0x4d, 0x14, 0x00], [0x4e, 0x14, 0x00, 0x00, 0x00]]

theorem isPushHeader_keyHash_iff {header : Bytes} :
    IsPushHeader header 20 ↔ header ∈ keyHashHeaders := by
  simp [IsPushHeader, keyHashHeaders, littleEndian]

/-- Which bytes a pattern stands for.  The lack of one stands for none. -/
def HasForm (bytes : Bytes) : ScriptPattern → Prop
  | .empty => bytes = []
  | .payToKeyHash keyHash =>
      ∃ header ∈ keyHashHeaders,
        bytes = [0x76, 0xa9] ++ header ++ keyHash.toBytes ++ [0x88, 0xac]
  | .signatureAndKey signature publicKey =>
      signature ≠ [] ∧ (publicKey.length = 33 ∨ publicKey.length = 65) ∧
        ∃ first second, IsPushHeader first signature.length ∧
          IsPushHeader second publicKey.length ∧
          bytes = first ++ signature ++ (second ++ publicKey)
  | .nonStandard => False

variable {bytes : Bytes} {script : Script} {elements : List ScriptElement}

theorem elements_eq_keyHashElements_iff {keyHash : KeyHash} :
    (mk bytes).elements = .ok (keyHashElements keyHash) ↔
      HasForm bytes (.payToKeyHash keyHash) := by
  have dup : (op .dup).Canonical := by decide
  have hash : (op .hash160).Canonical := by decide
  have verify : (op .equalVerify).Canonical := by decide
  have check : (op .checkSig).Canonical := by decide
  simp only [elements_eq_ok_iff, keyHashElements, allWritten_cons_op_iff dup,
    allWritten_cons_op_iff hash, allWritten_cons_push_iff,
    allWritten_cons_op_iff verify, allWritten_cons_op_iff check,
    allWritten_nil_iff, keyHash.length_toBytes, isPushHeader_keyHash_iff]
  constructor
  · rintro ⟨_, ⟨_, ⟨header, _, listed, ⟨_, ⟨_, rfl, rfl⟩, rfl⟩, rfl⟩, rfl⟩, rfl⟩
    refine ⟨header, listed, ?_⟩
    simp [Opcode.toByte]
  · rintro ⟨header, listed, rfl⟩
    refine ⟨_, ⟨_, ⟨header, _, listed, ⟨_, ⟨_, rfl, rfl⟩, rfl⟩, rfl⟩, rfl⟩, ?_⟩
    simp [Opcode.toByte]

theorem elements_eq_pushes_iff {first second : Bytes} :
    (mk bytes).elements = .ok [.push first, .push second] ↔
      ∃ header other, IsPushHeader header first.length ∧
        IsPushHeader other second.length ∧
        bytes = header ++ first ++ (other ++ second) := by
  simp only [elements_eq_ok_iff, allWritten_cons_push_iff,
    allWritten_nil_iff]
  constructor
  · rintro ⟨header, _, announces, ⟨other, _, otherAnnounces, rfl, rfl⟩, rfl⟩
    rw [List.append_nil]
    exact ⟨header, other, announces, otherAnnounces, rfl⟩
  · rintro ⟨header, other, announces, otherAnnounces, rfl⟩
    refine ⟨header, _, announces, ⟨other, _, otherAnnounces, rfl, rfl⟩, ?_⟩
    rw [List.append_nil]

theorem pattern_of_elements (parsed : script.elements = .ok elements)
    (nonempty : elements ≠ []) : script.pattern = patternOf elements := by
  have someBytes : script.toBytes ≠ [] := by
    intro none
    have written := elements_eq_ok_iff.mp parsed
    rw [none, allWritten_no_bytes] at written
    exact nonempty written
  rw [pattern, if_neg someBytes, parsed]

theorem patternOf_ne_empty : patternOf elements ≠ .empty := by
  unfold patternOf
  repeat' split
  all_goals exact ScriptPattern.noConfusion

theorem pattern_eq_empty_iff : (mk bytes).pattern = .empty ↔ bytes = [] := by
  constructor
  · intro recognised
    by_contra someBytes
    rw [pattern, if_neg someBytes] at recognised
    split at recognised
    · exact patternOf_ne_empty recognised
    · contradiction
  · rintro rfl
    rfl

theorem pattern_eq_iff_hasForm {found : ScriptPattern}
    (standard : found ≠ .nonStandard) :
    (mk bytes).pattern = found ↔ HasForm bytes found := by
  cases found with
  | empty => exact pattern_eq_empty_iff
  | payToKeyHash keyHash =>
      exact pattern_eq_payToKeyHash_iff.trans elements_eq_keyHashElements_iff
  | signatureAndKey signature publicKey =>
      rw [pattern_eq_signatureAndKey_iff, elements_eq_pushes_iff]
      exact and_comm.trans and_assoc
  | nonStandard => exact absurd rfl standard

theorem HasForm.standard {found : ScriptPattern} (form : HasForm bytes found) :
    found ≠ .nonStandard := by
  rintro rfl
  exact form

theorem HasForm.unique {first second : ScriptPattern}
    (form : HasForm bytes first) (other : HasForm bytes second) :
    first = second :=
  ((pattern_eq_iff_hasForm form.standard).mpr form).symm.trans
    ((pattern_eq_iff_hasForm other.standard).mpr other)

theorem pattern_eq_nonStandard_iff :
    (mk bytes).pattern = .nonStandard ↔ ∀ found, ¬ HasForm bytes found := by
  constructor
  · intro unrecognised found form
    rw [(pattern_eq_iff_hasForm form.standard).mpr form] at unrecognised
    exact form.standard unrecognised
  · intro formless
    by_contra standard
    exact formless _ ((pattern_eq_iff_hasForm standard).mp rfl)

theorem pattern_of_signatureAndKey {signature publicKey : Bytes}
    (signatureFits : signature.length < 2 ^ 32)
    (keyFits : publicKey.length < 2 ^ 32) :
    (signatureAndKey signature publicKey).pattern =
      if signature ≠ [] ∧ (publicKey.length = 33 ∨ publicKey.length = 65) then
        .signatureAndKey signature publicKey
      else .nonStandard :=
  pattern_of_elements (elements_signatureAndKey signatureFits keyFits)
    (List.cons_ne_nil _ _)

/-- A script pays to a key hash if it is one of four byte strings, and what is
built to present a signature and a key is recognised as such if there is a
signature and the key has a possible length.  Every pattern is recognised by its
bytes, no bytes are those of two patterns, and only no bytes at all are empty. -/
theorem pattern_recognised :
    (∀ (bytes : Bytes) (keyHash : KeyHash),
      (mk bytes).pattern = .payToKeyHash keyHash ↔
        ∃ header ∈ keyHashHeaders,
          bytes = [0x76, 0xa9] ++ header ++ keyHash.toBytes ++ [0x88, 0xac]) ∧
    (∀ signature publicKey : Bytes,
      signature.length < 2 ^ 32 → publicKey.length < 2 ^ 32 →
        (signatureAndKey signature publicKey).pattern =
          if signature ≠ [] ∧
              (publicKey.length = 33 ∨ publicKey.length = 65) then
            .signatureAndKey signature publicKey
          else .nonStandard) ∧
    (∀ bytes : Bytes, (mk bytes).pattern = .empty ↔ bytes = []) ∧
    (∀ bytes first second, HasForm bytes first → HasForm bytes second →
      first = second) ∧
    (∀ bytes found, found ≠ .nonStandard →
      ((mk bytes).pattern = found ↔ HasForm bytes found)) ∧
    ∀ bytes, (mk bytes).pattern = .nonStandard ↔
      ∀ found, ¬ HasForm bytes found := by
  exact ⟨fun _ _ =>
      pattern_eq_payToKeyHash_iff.trans elements_eq_keyHashElements_iff,
    fun _ _ => pattern_of_signatureAndKey, fun _ => pattern_eq_empty_iff,
    fun _ _ _ => HasForm.unique, fun _ _ => pattern_eq_iff_hasForm,
    fun _ => pattern_eq_nonStandard_iff⟩

/-- A key hash that looks like operations, behind the widest length field, and a
key that is presented with a signature and without one. -/
theorem pattern_recognised_of_code_hash :
    let keyHash : KeyHash := ⟨List.replicate 20 0xac, by decide⟩
    let other : KeyHash := ⟨List.replicate 20 0x76, by decide⟩
    let header : Bytes := [0x4e, 0x14, 0x00, 0x00, 0x00]
    let locking := [0x76, 0xa9] ++ header ++ keyHash.toBytes ++ [0x88, 0xac]
    let key : Bytes := List.replicate 33 0x02
    (mk locking).pattern = .payToKeyHash keyHash ∧
      HasForm locking (.payToKeyHash keyHash) ∧
      ¬ HasForm locking (.payToKeyHash other) ∧
      key.length < 2 ^ 32 ∧
      (signatureAndKey [0x88] key).pattern = .signatureAndKey [0x88] key ∧
      (signatureAndKey [] key).pattern = .nonStandard := by
  intro keyHash other header locking key
  have keyFits : key.length < 2 ^ 32 := by decide
  obtain ⟨paying, presenting, -, unique, recognised, -⟩ := pattern_recognised
  have pays : (mk locking).pattern = .payToKeyHash keyHash :=
    (paying locking keyHash).mpr ⟨header, by decide, rfl⟩
  have form : HasForm locking (.payToKeyHash keyHash) :=
    (recognised _ _ ScriptPattern.noConfusion).mp pays
  refine ⟨pays, form, fun otherForm => ?_, keyFits, ?_, ?_⟩
  · have same := unique _ _ _ form otherForm
    exact absurd same (by decide)
  · rw [presenting _ key (by decide) keyFits, if_pos (by decide)]
  · rw [presenting _ key (by decide) keyFits, if_neg (by decide)]

end Script

end CoinSpend
