import CoinSpend.SignedMessage
import CoinSpend.Proofs.Base64Form
import CoinSpend.Proofs.SignatureFields

/-!
# The two texts of a message signature

A message signature is written as a header and two numbers in base 64.  Of all
texts two are read as it: the one that is written, and the one with the second
number and the parity of the header both turned round.  Every other text is
refused.
-/

namespace CoinSpend

open Secp256k1

namespace MessageSignature

/-- The header byte for a recovery number and the form of a key. -/
def headerOf (recoveryId : Fin 4) (compressed : Bool) : UInt8 :=
  UInt8.ofNat (27 + recoveryId.val + if compressed then 4 else 0)

theorem toNat_headerOf (recoveryId : Fin 4) (compressed : Bool) :
    (headerOf recoveryId compressed).toNat =
      27 + recoveryId.val + if compressed then 4 else 0 := by
  have bound := recoveryId.isLt
  apply UInt8.toNat_ofNat_of_lt
  change _ < 256
  split <;> omega

/-- A header tells the recovery number and the form of the key. -/
theorem eq_headerOf_iff {header : UInt8} {recoveryId : Fin 4}
    {compressed : Bool} :
    header = headerOf recoveryId compressed ↔
      ¬ (header.toNat < headerBase ∨
          2 * compressedOffset ≤ header.toNat - headerBase) ∧
        Fin.ofNat 4 (header.toNat - headerBase) = recoveryId ∧
        decide (compressedOffset ≤ header.toNat - headerBase) =
          compressed := by
  have bound := recoveryId.isLt
  rw [← UInt8.toNat_inj, toNat_headerOf, Fin.ext_iff]
  change _ ↔ _ ∧ _ % 4 = _ ∧ _
  unfold headerBase compressedOffset
  cases compressed
  · simp only [Bool.false_eq_true, if_false, decide_eq_false_iff_not]
    omega
  · simp only [if_true, decide_eq_true_eq]
    omega

theorem headerOf_injective {first second : Fin 4} {compressed : Bool}
    (same : headerOf first compressed = headerOf second compressed) :
    first = second := by
  have firstRead := (eq_headerOf_iff.mp same).2.1
  exact ((eq_headerOf_iff.mp rfl).2.1).symm.trans firstRead

/-- The base 64 text of a header and two numbers. -/
def spelling (recoveryId : Fin 4) (compressed : Bool) (r s : Nat) : String :=
  Base64.encode
    (headerOf recoveryId compressed :: (bigEndian 32 r ++ bigEndian 32 s))

/-- Whether a text is one of the two spellings of a message signature. -/
def Spells (text : String) (recoveryId : Fin 4) (compressed : Bool)
    (r s : Nat) : Prop :=
  text = spelling recoveryId compressed r s ∨
    text = spelling (recoveryId ^^^ 1) compressed r (groupOrder - s)

theorem ofText_eq_ok_iff_fields {text : String} {signed : MessageSignature} :
    ofText text = .ok signed ↔
      ∃ recoveryId scalars,
        text = Base64.encode
            (headerOf recoveryId signed.compressed :: scalars) ∧
          Signature.ofCompactFields scalars (some recoveryId) =
            .ok signed.signature := by
  simp only [ofText, Error.bind_eq_ok_iff, Error.mapError_eq_ok_iff,
    Base64.decode_eq_ok_iff]
  constructor
  · rintro ⟨bytes, rfl, read⟩
    cases bytes with
    | nil => contradiction
    | cons header scalars =>
        simp only [Error.bind_eq_ok_iff, Error.check_eq_ok_iff] at read
        obtain ⟨-, inRange, signature, made, returned⟩ := read
        cases returned
        have headerEq := eq_headerOf_iff.mpr ⟨inRange, rfl, rfl⟩
        exact ⟨_, scalars, by rw [← headerEq], made⟩
  · rintro ⟨recoveryId, scalars, rfl, made⟩
    obtain ⟨inRange, number, form⟩ := eq_headerOf_iff.mp
      (rfl : headerOf recoveryId signed.compressed = _)
    refine ⟨_, rfl, ?_⟩
    simp only [Error.bind_eq_ok_iff, Error.check_eq_ok_iff, number, form]
    exact ⟨not_not_intro (Signature.length_of_ofCompactFields made), inRange,
      _, made, rfl⟩

theorem ofText_eq_ok_iff {text : String} {signed : MessageSignature} :
    ofText text = .ok signed ↔
      ∃ recoveryId, signed.signature.recoveryId = some recoveryId ∧
        Spells text recoveryId signed.compressed signed.signature.r.val
          signed.signature.s.val := by
  simp only [ofText_eq_ok_iff_fields, Signature.ofCompactFields_eq_ok_iff]
  constructor
  · rintro ⟨recoveryId, scalars, rfl, ⟨rfl, numbered⟩ | ⟨rfl, numbered⟩⟩
    · exact ⟨recoveryId, numbered.symm, .inl rfl⟩
    · obtain ⟨own, ownEq, rfl⟩ := Option.map_eq_some_iff.mp numbered.symm
      exact ⟨own, ownEq, .inr rfl⟩
  · rintro ⟨recoveryId, numbered, rfl | rfl⟩
    · exact ⟨recoveryId, _, rfl, .inl ⟨rfl, numbered.symm⟩⟩
    · refine ⟨recoveryId ^^^ 1, _, rfl, .inr ⟨rfl, ?_⟩⟩
      rw [numbered]
      rfl

theorem toText_eq_spelling {signed : MessageSignature} {recoveryId : Fin 4}
    (numbered : signed.signature.recoveryId = some recoveryId) :
    signed.toText = spelling recoveryId signed.compressed
      signed.signature.r.val signed.signature.s.val := by
  unfold toText header
  rw [numbered]
  rfl

theorem ofText_toText (signed : MessageSignature) {recoveryId : Fin 4}
    (numbered : signed.signature.recoveryId = some recoveryId) :
    ofText signed.toText = .ok signed :=
  ofText_eq_ok_iff.mpr
    ⟨recoveryId, numbered, .inl (toText_eq_spelling numbered)⟩

/-- Whether a message signature consists of the given parts. -/
def HasParts (signed : MessageSignature) (recoveryId : Fin 4)
    (compressed : Bool) (r s : Nat) : Prop :=
  signed.signature.r.val = r ∧ signed.signature.s.val = s ∧
    signed.signature.recoveryId = some recoveryId ∧
    signed.compressed = compressed

/-- The numbers that a signature can hold. -/
def InRange (r s : Nat) : Prop :=
  1 ≤ r ∧ r ≤ groupOrder - 1 ∧ 1 ≤ s ∧ s ≤ (groupOrder - 1) / 2

theorem inRange_iff {r s : Nat} :
    InRange r s ↔
      ∃ signature : Signature, signature.r.val = r ∧ signature.s.val = s := by
  constructor
  · rintro ⟨rPositive, rBound, sPositive, sBound⟩
    have someScalar : 0 < groupOrder := by decide
    have rFits : r < groupOrder := by omega
    have sFits : s < groupOrder := by omega
    have nonzero {number : Nat} (positive : 1 ≤ number)
        (fits : number < groupOrder) : (⟨number, fits⟩ : Scalar) ≠ 0 :=
      fun isZero => Nat.one_le_iff_ne_zero.mp positive (congrArg Fin.val isZero)
    exact ⟨⟨⟨r, rFits⟩, ⟨s, sFits⟩, none, nonzero rPositive rFits,
      nonzero sPositive sFits, sBound⟩, rfl, rfl⟩
  · rintro ⟨signature, rfl, rfl⟩
    have positive {scalar : Scalar} (nonzero : scalar ≠ 0) : 1 ≤ scalar.val :=
      Nat.one_le_iff_ne_zero.mpr fun isZero => nonzero (Fin.ext isZero)
    exact ⟨positive signature.r_ne_zero, Nat.le_pred_of_lt signature.r.isLt,
      positive signature.s_ne_zero, signature.s_low⟩

theorem ofText_hasParts_iff {r s : Nat} (inRange : InRange r s)
    {recoveryId : Fin 4} {compressed : Bool} {text : String} :
    (∃ signed, ofText text = .ok signed ∧
        signed.HasParts recoveryId compressed r s) ↔
      Spells text recoveryId compressed r s := by
  constructor
  · rintro ⟨signed, read, rfl, rfl, numbered, rfl⟩
    obtain ⟨own, ownEq, spells⟩ := ofText_eq_ok_iff.mp read
    rw [numbered, Option.some.injEq] at ownEq
    rwa [ownEq]
  · intro spells
    obtain ⟨signature, rfl, rfl⟩ := inRange_iff.mp inRange
    refine ⟨⟨{ signature with recoveryId := some recoveryId }, compressed⟩,
      ofText_eq_ok_iff.mpr ⟨recoveryId, rfl, spells⟩, rfl, rfl, rfl, rfl⟩

theorem spelling_ne_spelling (recoveryId : Fin 4) (compressed : Bool)
    (r s : Nat) :
    spelling recoveryId compressed r s ≠
      spelling (recoveryId ^^^ 1) compressed r (groupOrder - s) := by
  intro same
  have headersEq := (List.cons.inj (Base64.encode_injective same)).1
  have flipped : ∀ number : Fin 4, number ≠ number ^^^ 1 := by decide
  exact flipped recoveryId (headerOf_injective headersEq)

theorem exists_ofText_eq_error_iff {text : String} :
    (∃ error, ofText text = .error error) ↔
      ¬ ∃ r s recoveryId compressed, InRange r s ∧
        Spells text recoveryId compressed r s := by
  constructor
  · rintro ⟨error, refused⟩ ⟨r, s, recoveryId, compressed, inRange, spells⟩
    obtain ⟨signed, read, -⟩ := (ofText_hasParts_iff inRange).mpr spells
    rw [refused] at read
    contradiction
  · intro unspelled
    cases outcome : ofText text with
    | error error => exact ⟨error, rfl⟩
    | ok signed =>
        obtain ⟨recoveryId, -, spells⟩ := ofText_eq_ok_iff.mp outcome
        exact absurd ⟨_, _, _, _, inRange_iff.mpr ⟨_, rfl, rfl⟩, spells⟩
          unspelled

/-- Two texts, and no others, are read as a message signature of given parts.
A text that spells no parts is refused. -/
theorem ofText_spellings :
    (∀ r s, InRange r s → ∀ recoveryId compressed text,
      (∃ signed, ofText text = .ok signed ∧
          signed.HasParts recoveryId compressed r s) ↔
        text = spelling recoveryId compressed r s ∨
          text = spelling (recoveryId ^^^ 1) compressed r (groupOrder - s)) ∧
      (∀ r s recoveryId compressed,
        spelling recoveryId compressed r s ≠
          spelling (recoveryId ^^^ 1) compressed r (groupOrder - s)) ∧
      ∀ text,
        (∃ error, ofText text = .error error) ↔
          ¬ ∃ r s recoveryId compressed, InRange r s ∧
            (text = spelling recoveryId compressed r s ∨
              text = spelling (recoveryId ^^^ 1) compressed r
                (groupOrder - s)) :=
  ⟨fun _ _ inRange _ _ _ => ofText_hasParts_iff inRange,
    fun r s recoveryId compressed =>
      spelling_ne_spelling recoveryId compressed r s,
    fun _ => exists_ofText_eq_error_iff⟩

/-- The largest numbers that a signature can hold, spelled with the second one
negated. -/
theorem ofText_spellings_of_largest_numbers :
    InRange (groupOrder - 1) ((groupOrder - 1) / 2) ∧
      ∃ signed, ofText
          "Iv////////////////////66rtzmr0igO7/SXozQNkFAf////////////////////11XbnNXpFAd3+kvRmgbIKE=" =
        .ok signed ∧
        signed.HasParts 2 true (groupOrder - 1) ((groupOrder - 1) / 2) := by
  have inRange : InRange (groupOrder - 1) ((groupOrder - 1) / 2) := by
    unfold InRange
    decide
  exact ⟨inRange, (ofText_spellings.1 _ _ inRange 2 true _).mpr
    (.inr (by decide))⟩

end MessageSignature

end CoinSpend
