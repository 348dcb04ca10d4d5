import CoinSpend.Proofs.RecoveredKeys

/-!
# The byte strings that are public keys

A byte string is read as a key exactly if it is the form of the key and the key's
point is on the curve.  A form that names no point of the curve is refused, be it
that a coordinate is too large or that the equation does not hold, and so is every
first byte but the one or two of each length.
-/

namespace CoinSpend

namespace Secp256k1

/-- No point is found over a coordinate exactly if the curve has none there. -/
theorem pointAt?_eq_none_iff {x : Coordinate} {odd : Bool} :
    pointAt? x odd = none ↔
      ∀ point : AffinePoint, point.x = x → ¬ point.OnCurve := by
  constructor
  · rintro missing point rfl onCurve
    unfold AffinePoint.OnCurve at onCurve
    have square := squareRoot_mul_self point.y
    rw [onCurve] at square
    simp only [pointAt?, square, if_true] at missing
    exact Option.some_ne_none _ missing
  · intro noPoint
    cases found : pointAt? x odd with
    | none => rfl
    | some point =>
        obtain ⟨xEq, -, onCurve⟩ := pointAt?_eq_some found
        exact absurd onCurve (noPoint point xEq)

end Secp256k1

open Secp256k1

namespace PublicKey

theorem coordinate?_eq_some_iff {field : Bytes} {coordinate : Coordinate} :
    coordinate? field = some coordinate ↔
      coordinate.val = bigEndianValue field := by
  unfold coordinate?
  dsimp only
  constructor
  · intro found
    split at found
    · cases found
      rfl
    · contradiction
  · intro value
    have small : bigEndianValue field < fieldPrime := value ▸ coordinate.isLt
    rw [dif_pos small, Option.some.injEq]
    exact Fin.ext value.symm

theorem coordinate?_eq_none_iff {field : Bytes} :
    coordinate? field = none ↔ fieldPrime ≤ bigEndianValue field := by
  unfold coordinate?
  dsimp only
  split
  · rename_i small
    simp [small]
  · rename_i large
    simpa using large

theorem compressedPoint?_eq_none_iff {odd : Bool} {field : Bytes} :
    compressedPoint? odd field = none ↔
      fieldPrime ≤ bigEndianValue field ∨
        ∀ point : AffinePoint, point.x.val = bigEndianValue field →
          ¬ point.OnCurve := by
  unfold compressedPoint?
  cases found : coordinate? field with
  | none => simp [coordinate?_eq_none_iff.mp found]
  | some x =>
      have value := coordinate?_eq_some_iff.mp found
      have small : ¬ fieldPrime ≤ bigEndianValue field :=
        Nat.not_le.mpr (value ▸ x.isLt)
      rw [or_iff_right small, ← value]
      simp only [Option.bind_eq_bind, Option.bind_some, pointAt?_eq_none_iff,
        Fin.ext_iff]

theorem uncompressedPoint?_eq_none_iff {fields : Bytes} :
    uncompressedPoint? fields = none ↔
      fieldPrime ≤ bigEndianValue (fields.take 32) ∨
        fieldPrime ≤ bigEndianValue (fields.drop 32) ∨
          ∀ point : AffinePoint,
            point.x.val = bigEndianValue (fields.take 32) →
              point.y.val = bigEndianValue (fields.drop 32) →
                ¬ point.OnCurve := by
  unfold uncompressedPoint?
  cases foundX : coordinate? (fields.take 32) with
  | none => simp [coordinate?_eq_none_iff.mp foundX]
  | some x =>
      cases foundY : coordinate? (fields.drop 32) with
      | none => simp [coordinate?_eq_none_iff.mp foundY]
      | some y =>
          have xValue := coordinate?_eq_some_iff.mp foundX
          have yValue := coordinate?_eq_some_iff.mp foundY
          have xSmall : ¬ fieldPrime ≤ bigEndianValue (fields.take 32) :=
            Nat.not_le.mpr (xValue ▸ x.isLt)
          have ySmall : ¬ fieldPrime ≤ bigEndianValue (fields.drop 32) :=
            Nat.not_le.mpr (yValue ▸ y.isLt)
          rw [or_iff_right xSmall, or_iff_right ySmall, ← xValue, ← yValue]
          simp only [Option.bind_eq_bind, Option.bind_some]
          constructor
          · rintro refused ⟨_, _⟩ sameX sameY onCurve
            obtain rfl := Fin.ext sameX
            obtain rfl := Fin.ext sameY
            simp [guard, onCurve] at refused
          · intro off
            simp [guard, off ⟨x, y⟩ rfl rfl]

theorem ofPoint?_eq_pointNotOnCurve_iff {compressed : Bool}
    {found : Option AffinePoint} :
    ofPoint? compressed found = .error .pointNotOnCurve ↔ found = none := by
  cases found <;> simp [ofPoint?]

theorem ofBytes_eq_ok_iff_toBytes {bytes : Bytes} {key : PublicKey} :
    ofBytes bytes = .ok key ↔ key.point.OnCurve ∧ bytes = key.toBytes := by
  constructor
  · intro accepted
    obtain ⟨written, onCurve⟩ := toBytes_of_ofBytes accepted
    exact ⟨onCurve, written.symm⟩
  · rintro ⟨onCurve, rfl⟩
    exact ofBytes_toBytes onCurve

section Refused

variable {form : UInt8} {fields : Bytes}

theorem ofBytes_compressed_eq_pointNotOnCurve_iff
    (width : fields.length = 32) (announced : form = 0x02 ∨ form = 0x03) :
    ofBytes (form :: fields) = .error .pointNotOnCurve ↔
      fieldPrime ≤ bigEndianValue fields ∨
        ∀ point : AffinePoint, point.x.val = bigEndianValue fields →
          ¬ point.OnCurve := by
  simp only [ofBytes, width, if_true, announced]
  rw [ofPoint?_eq_pointNotOnCurve_iff, compressedPoint?_eq_none_iff]

theorem ofBytes_uncompressed_eq_pointNotOnCurve_iff
    (width : fields.length = 64) :
    ofBytes (0x04 :: fields) = .error .pointNotOnCurve ↔
      fieldPrime ≤ bigEndianValue (fields.take 32) ∨
        fieldPrime ≤ bigEndianValue (fields.drop 32) ∨
          ∀ point : AffinePoint,
            point.x.val = bigEndianValue (fields.take 32) →
              point.y.val = bigEndianValue (fields.drop 32) →
                ¬ point.OnCurve := by
  simp only [ofBytes, width, if_true]
  rw [if_neg (by decide), ofPoint?_eq_pointNotOnCurve_iff,
    uncompressedPoint?_eq_none_iff]

theorem ofBytes_of_other_length {bytes : Bytes} (notShort : bytes.length ≠ 33)
    (notLong : bytes.length ≠ 65) :
    ofBytes bytes = .error (.encoding (.publicKeyLength bytes.length)) := by
  cases bytes with
  | nil => rfl
  | cons form fields =>
      rw [List.length_cons, ne_eq, Nat.add_left_inj] at notShort notLong
      simp only [ofBytes, if_neg notShort, if_neg notLong, List.length_cons]

theorem ofBytes_of_compressed_length (width : fields.length = 32)
    (unannounced : ¬ (form = 0x02 ∨ form = 0x03)) :
    ofBytes (form :: fields) = .error (.encoding (.publicKeyForm form)) := by
  simp only [ofBytes, width, if_true, if_neg unannounced]

theorem ofBytes_of_uncompressed_length (width : fields.length = 64)
    (unannounced : form ≠ 0x04) :
    ofBytes (form :: fields) = .error (.encoding (.publicKeyForm form)) := by
  simp only [ofBytes, width, if_true, if_neg unannounced]
  rw [if_neg (by decide)]

end Refused

theorem hash_of_ofBytes {bytes : Bytes} {key : PublicKey}
    (accepted : ofBytes bytes = .ok key) : key.hash = hash160 bytes := by
  rw [hash, (toBytes_of_ofBytes accepted).1]

theorem point_onCurve_of_recover {signature : Signature} {digest : Digest}
    {key : PublicKey} (recovered : signature.recover digest = .ok key) :
    key.point.OnCurve :=
  (Signature.recover_eq_ok_iff.mp recovered).2.1

/-- A byte string is read as a key on the curve exactly if it is the key's form.
Both forms of a point are read as this point, whatever else is in a form's place
is refused, and an accepted byte string has the hash of its key.  The keys that
are derived or recovered are all on the curve. -/
theorem ofBytes_inverts_toBytes :
    (∀ bytes (key : PublicKey), key.point.OnCurve →
      (ofBytes bytes = .ok key ↔ bytes = key.toBytes)) ∧
    (∀ bytes key, ofBytes bytes = .ok key →
      key.point.OnCurve ∧ key.hash = hash160 bytes) ∧
    (∀ point : AffinePoint, point.OnCurve →
      ∃ short long, (toBytes ⟨point, true⟩).length = 33 ∧
        (toBytes ⟨point, false⟩).length = 65 ∧
        ofBytes (toBytes ⟨point, true⟩) = .ok short ∧
        ofBytes (toBytes ⟨point, false⟩) = .ok long ∧
        short.point = point ∧ long.point = point) ∧
    (∀ form fields, fields.length = 32 →
      (form = 0x02 ∨ form = 0x03 →
        (ofBytes (form :: fields) = .error .pointNotOnCurve ↔
          fieldPrime ≤ bigEndianValue fields ∨
            ∀ point : AffinePoint, point.x.val = bigEndianValue fields →
              ¬ point.OnCurve)) ∧
      (¬ (form = 0x02 ∨ form = 0x03) →
        ofBytes (form :: fields) =
          .error (.encoding (.publicKeyForm form)))) ∧
    (∀ form fields, fields.length = 64 →
      (form = 0x04 →
        (ofBytes (form :: fields) = .error .pointNotOnCurve ↔
          fieldPrime ≤ bigEndianValue (fields.take 32) ∨
            fieldPrime ≤ bigEndianValue (fields.drop 32) ∨
              ∀ point : AffinePoint,
                point.x.val = bigEndianValue (fields.take 32) →
                  point.y.val = bigEndianValue (fields.drop 32) →
                    ¬ point.OnCurve)) ∧
      (form ≠ 0x04 →
        ofBytes (form :: fields) =
          .error (.encoding (.publicKeyForm form)))) ∧
    (∀ bytes : Bytes, bytes.length ≠ 33 → bytes.length ≠ 65 →
      ofBytes bytes = .error (.encoding (.publicKeyLength bytes.length))) ∧
    (∀ key : PrivateKey, key.publicKey.point.OnCurve) ∧
    (∀ (signature : Signature) digest key,
      signature.recover digest = .ok key → key.point.OnCurve) := by
  refine ⟨fun bytes key onCurve => ?_, fun bytes key accepted => ?_,
    fun point onCurve => ?_, fun form fields width => ⟨?_, ?_⟩,
    fun form fields width => ⟨?_, ?_⟩, fun _ => ofBytes_of_other_length,
    fun key => key.publicPoint_view.1, fun _ _ _ => point_onCurve_of_recover⟩
  · rw [ofBytes_eq_ok_iff_toBytes, and_iff_right onCurve]
  · exact ⟨(toBytes_of_ofBytes accepted).2, hash_of_ofBytes accepted⟩
  · exact ⟨_, _, length_toBytes _, length_toBytes _, ofBytes_toBytes onCurve,
      ofBytes_toBytes onCurve, rfl, rfl⟩
  · exact ofBytes_compressed_eq_pointNotOnCurve_iff width
  · exact ofBytes_of_compressed_length width
  · rintro rfl
    exact ofBytes_uncompressed_eq_pointNotOnCurve_iff width
  · exact ofBytes_of_uncompressed_length width

/-- The generator in its forms, a coordinate that is too large, a form that has
both coordinates and announces a parity, and a point off the curve. -/
theorem ofBytes_inverts_toBytes_of_generator :
    let x := bigEndian 32 generator.x.val
    let y := bigEndian 32 generator.y.val
    let secret : PrivateKey := ⟨1, true, .mainnet, by decide⟩
    let digest : Digest := FixedBytes.ofNat 32 groupOrder
    generator.OnCurve ∧
      ofBytes (0x02 :: x) = .ok ⟨generator, true⟩ ∧
      hash ⟨generator, true⟩ = hash160 (0x02 :: x) ∧
      (toBytes ⟨generator, false⟩).length = 65 ∧
      ofBytes (0x02 :: bigEndian 32 (2 ^ 256 - 1)) =
        .error .pointNotOnCurve ∧
      ofBytes (0x06 :: (x ++ y)) = .error (.encoding (.publicKeyForm 0x06)) ∧
      ofBytes (0x04 :: bigEndian 64 0) = .error .pointNotOnCurve ∧
      ofBytes (0x04 :: x) = .error (.encoding (.publicKeyForm 0x04)) ∧
      ofBytes x = .error (.encoding (.publicKeyLength 32)) ∧
      secret.publicKey.point.OnCurve ∧
      (secret.sign digest).recover digest =
        .ok (secret.publicKey.withCompression false) ∧
      (secret.publicKey.withCompression false).point.OnCurve := by
  intro x y secret digest
  have offCurve (point : AffinePoint)
      (xZero : point.x.val = bigEndianValue ((bigEndian 64 0).take 32))
      (yZero : point.y.val = bigEndianValue ((bigEndian 64 0).drop 32)) :
      ¬ point.OnCurve := by
    obtain ⟨pointX, pointY⟩ := point
    obtain rfl : pointX = 0 := Fin.ext xZero
    obtain rfl : pointY = 0 := Fin.ext yZero
    decide
  obtain ⟨inverts, accepted, forms, compressed, uncompressed, lengths, derived,
    recovered⟩ := ofBytes_inverts_toBytes
  have read : ofBytes (0x02 :: x) = .ok ⟨generator, true⟩ :=
    (inverts _ ⟨generator, true⟩ generator_onCurve).mpr (by decide)
  obtain ⟨_, _, -, long, -⟩ := forms generator generator_onCurve
  exact ⟨generator_onCurve, read, (accepted _ _ read).2, long,
    ((compressed 0x02 (bigEndian 32 (2 ^ 256 - 1)) (by decide)).1
      (.inl rfl)).mpr (.inl (by decide)),
    (uncompressed 0x06 (x ++ y) (by decide)).2 (by decide),
    ((uncompressed 0x04 (bigEndian 64 0) (by decide)).1 rfl).mpr
      (.inr (.inr offCurve)),
    (compressed 0x04 x (by decide)).2 (by decide),
    lengths x (by decide) (by decide), derived secret,
    secret.recover_sign digest, recovered _ _ _ (secret.recover_sign digest)⟩

end PublicKey

end CoinSpend
