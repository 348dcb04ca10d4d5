import CoinSpend.PublicKey
import CoinSpend.Proofs.Positional
import Mathlib.Data.List.GetD

/-!
# The texts that are read are those that are written

A digit of an alphabet without repetition is known by its place.  So a base 58
text is the written form of the bytes it is read as, and a guarded text or an
address is the written form of its parts: each has one spelling.
-/

namespace CoinSpend

theorem idxOf?_eq_some_iff_getD {alphabet : Bytes} (distinct : alphabet.Nodup)
    {byte : UInt8} {number : Nat} :
    alphabet.idxOf? byte = some number ↔
      number < alphabet.length ∧ alphabet.getD number 0 = byte := by
  rw [List.idxOf?_eq_some_iff]
  constructor
  · rintro ⟨bound, found, -⟩
    refine ⟨bound, ?_⟩
    rw [← found, List.getD_eq_getElem _ _ bound]
  · rintro ⟨bound, found⟩
    rw [List.getD_eq_getElem _ _ bound] at found
    refine ⟨bound, found, fun earlier before same => ?_⟩
    have samePlace := distinct.getElem_inj_iff.mp (same.trans found.symm)
    omega

theorem getD_lt_of_ascii {alphabet : Bytes}
    (ascii : ∀ byte ∈ alphabet, byte < 128) (number : Nat) :
    alphabet.getD number 0 < 128 := by
  by_cases bound : number < alphabet.length
  · rw [List.getD_eq_getElem _ _ bound]
    exact ascii _ (List.getElem_mem bound)
  · rw [List.getD_eq_default _ _ (Nat.not_lt.mp bound)]
    decide

namespace Base58

theorem alphabet_nodup : alphabet.Nodup := by
  decide

theorem digit_lt (number : Nat) : digit number < 128 :=
  getD_lt_of_ascii (by decide +kernel) number

theorem digitValues_eq_ok_iff {offset : Nat} {bytes : Bytes}
    {values : List Nat} :
    digitValues offset bytes = .ok values ↔
      (∀ value ∈ values, value < 58) ∧ bytes = values.map digit := by
  induction bytes generalizing offset values with
  | nil =>
      cases values with
      | nil => simp [digitValues]
      | cons value values => simp [digitValues]
  | cons byte bytes ih =>
      unfold digitValues
      constructor
      · intro read
        split at read
        · contradiction
        · split at read
          · contradiction
          · rename_i value place
            obtain ⟨bound, rfl⟩ :=
              (idxOf?_eq_some_iff_getD alphabet_nodup).mp place
            cases rest : digitValues (offset + 1) bytes with
            | error fault =>
                rw [rest] at read
                contradiction
            | ok others =>
                rw [rest] at read
                cases read
                obtain ⟨othersBound, rfl⟩ := ih.mp rest
                exact ⟨List.forall_mem_cons.mpr ⟨bound, othersBound⟩, rfl⟩
      · rintro ⟨bounded, written⟩
        cases values with
        | nil => contradiction
        | cons value values =>
            obtain ⟨bound, othersBound⟩ := List.forall_mem_cons.mp bounded
            rw [List.map_cons, List.cons.injEq] at written
            obtain ⟨rfl, rfl⟩ := written
            have place : alphabet.idxOf? (digit value) = some value :=
              (idxOf?_eq_some_iff_getD alphabet_nodup).mpr ⟨bound, rfl⟩
            rw [if_neg (UInt8.not_le.mpr (digit_lt value)), place,
              ih.mpr ⟨othersBound, rfl⟩]
            rfl

theorem utf8Bytes_eq_iff {text : String} {values : List Nat} :
    utf8Bytes text = values.map digit ↔ text = asciiText (values.map digit) := by
  apply utf8Bytes_eq_iff_of_ascii
  intro byte byteMem
  obtain ⟨value, -, rfl⟩ := List.mem_map.mp byteMem
  exact digit_lt value

/-- A text is read exactly if it is the written form of what it is read as. -/
theorem decode_eq_ok_iff {text : String} {bytes : Bytes} :
    decode text = .ok bytes ↔ text = encode bytes := by
  have bytesBound : ∀ number ∈ bytes.map UInt8.toNat, number < 256 := by
    intro number numberMem
    obtain ⟨byte, -, rfl⟩ := List.mem_map.mp numberMem
    exact byte.toNat_lt
  unfold decode
  constructor
  · intro read
    cases found : digitValues 0 (utf8Bytes text) with
    | error fault =>
        rw [found] at read
        contradiction
    | ok values =>
        rw [found] at read
        cases read
        obtain ⟨valuesBound, written⟩ := digitValues_eq_ok_iff.mp found
        unfold encode
        rw [map_toNat_ofNat fun _ =>
            Radix.lt_of_mem_convert (by decide),
          Radix.convert_convert (by decide) (by decide) valuesBound]
        exact utf8Bytes_eq_iff.mp written
  · intro written
    have found : digitValues 0 (utf8Bytes text) =
        .ok (Radix.convert 256 58 (bytes.map UInt8.toNat)) :=
      digitValues_eq_ok_iff.mpr
        ⟨fun _ => Radix.lt_of_mem_convert (by decide),
          utf8Bytes_eq_iff.mpr written⟩
    rw [found]
    change Except.ok _ = Except.ok bytes
    rw [Radix.convert_convert (by decide) (by decide) bytesBound]
    simp [Function.comp_def]

end Base58

namespace Base58Check

theorem decode_eq_ok_iff_bytes {text : String} {version : UInt8}
    {payload : Bytes} :
    decode text = .ok (version, payload) ↔
      ∃ bytes, Base58.decode text = .ok bytes ∧ ¬ bytes.length < 4 ∧
        bytes.drop (bytes.length - 4) =
          checksum (bytes.take (bytes.length - 4)) ∧
        bytes.take (bytes.length - 4) = version :: payload := by
  simp only [decode, Error.bind_eq_ok_iff, Error.mapError_eq_ok_iff,
    Error.check_eq_ok_iff, ne_eq, Decidable.not_not]
  refine exists_congr fun bytes => and_congr_right fun _ =>
    and_congr_right fun _ => and_congr_right fun _ => ?_
  cases bytes.take (bytes.length - 4) with
  | nil => simp [throw, throwThe, MonadExceptOf.throw]
  | cons found rest => simp [pure, Except.pure]

theorem decode_eq_ok_iff {text : String} {version : UInt8} {payload : Bytes} :
    decode text = .ok (version, payload) ↔ text = encode version payload := by
  rw [decode_eq_ok_iff_bytes]
  constructor
  · rintro ⟨bytes, found, long, guarded, parts⟩
    rw [Base58.decode_eq_ok_iff.mp found, encode, ← parts, ← guarded,
      List.take_append_drop]
  · rintro rfl
    have guardedLength : (version :: payload ++
        checksum (version :: payload)).length - 4 =
          (version :: payload).length := by
      simp
    refine ⟨_, Base58.decode_eq_ok_iff.mpr rfl, ?_, ?_, ?_⟩
    · simp
    · rw [guardedLength, List.drop_left, List.take_left]
    · rw [guardedLength, List.take_left]

end Base58Check

namespace Address

/-- A text is read as an address exactly if it is the text of the address. -/
theorem ofText_eq_ok_iff {text : String} {address : Address} :
    ofText text = .ok address ↔ text = address.toText := by
  unfold ofText toText
  rw [Error.bind_eq_ok_iff]
  constructor
  · rintro ⟨⟨version, payload⟩, decoded, read⟩
    rw [Base58Check.decode_eq_ok_iff.mp decoded]
    simp only at read
    split at read
    · contradiction
    · rename_i network versionEq
      split at read
      · contradiction
      · rename_i keyHash payloadEq
        cases read
        rw [Network.ofAddressVersion?_eq_some_iff.mp versionEq,
          FixedBytes.ofBytes?_eq_some_iff.mp payloadEq]
  · intro written
    refine ⟨_, Base58Check.decode_eq_ok_iff.mpr written, ?_⟩
    simp only [Network.ofAddressVersion?_eq_some_iff.mpr rfl,
      FixedBytes.ofBytes?_eq_some_iff.mpr rfl]
    rfl

end Address

end CoinSpend
