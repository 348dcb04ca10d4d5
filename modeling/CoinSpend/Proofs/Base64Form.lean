import CoinSpend.Proofs.TextForms

/-!
# Base 64 text is read as it was written

Three bytes and four symbols are the digits of one number of 24 bits.  A last
group of one or two bytes is completed by zeros, which the padding leaves out
and reading puts back.  Padding that is required and left-over bits that are
zero leave one written form to a byte string, and no other text is read.
-/

namespace CoinSpend

namespace Base64

theorem alphabet_nodup : alphabet.Nodup := by
  decide

theorem symbol_lt (number : Nat) : symbol number < 128 :=
  getD_lt_of_ascii (by decide +kernel) number

theorem idxOf?_symbol {number : Nat} (bound : number < 64) :
    alphabet.idxOf? (symbol number) = some number :=
  (idxOf?_eq_some_iff_getD alphabet_nodup).mpr ⟨bound, rfl⟩

theorem symbol_ne_pad {number : Nat} (bound : number < 64) :
    symbol number ≠ pad := by
  intro isPad
  have place := idxOf?_symbol bound
  rw [isPad] at place
  contradiction

/-- The four digits of a 24-bit number in base 64. -/
def sextets (number : Nat) : List Nat :=
  [number / 64 / 64 / 64 % 64, number / 64 / 64 % 64, number / 64 % 64,
    number % 64]

theorem symbols_eq_map (number : Nat) :
    symbols number = (sextets number).map symbol :=
  rfl

theorem lt_of_mem_sextets {number value : Nat}
    (valueMem : value ∈ sextets number) : value < 64 := by
  simp only [sextets, List.mem_cons, List.not_mem_nil, or_false] at valueMem
  omega

/-- Digits that are left out count as zeros. -/
theorem groupNumber_take {number kept : Nat} (bound : number < 256 ^ 3)
    (fits : kept ≤ 4) (zeros : number % 64 ^ (4 - kept) = 0) :
    groupNumber ((sextets number).take kept) = number := by
  have cases : kept = 0 ∨ kept = 1 ∨ kept = 2 ∨ kept = 3 ∨ kept = 4 := by omega
  rcases cases with rfl | rfl | rfl | rfl | rfl <;>
    simp [groupNumber, sextets] at zeros ⊢ <;> omega

/-- Digits of at most a group are found again in the number they form. -/
theorem take_sextets_groupNumber {values : List Nat}
    (bounded : ∀ value ∈ values, value < 64) (short : values.length ≤ 4) :
    (sextets (groupNumber values)).take values.length = values := by
  rcases values with _ | ⟨first, _ | ⟨second, _ | ⟨third, _ | ⟨fourth, rest⟩⟩⟩⟩
  case cons.cons.cons.cons =>
    have lone : rest = [] := List.eq_nil_of_length_eq_zero (by
      simp only [List.length_cons] at short
      omega)
    subst lone
    simp [groupNumber, sextets] at bounded ⊢
    omega
  all_goals
    simp [groupNumber, sextets] at bounded ⊢
  all_goals omega

theorem groupNumber_lt {values : List Nat}
    (bounded : ∀ value ∈ values, value < 64) :
    groupNumber values < 256 ^ 3 := by
  have digit (place : Nat) : values.getD place 0 < 64 := by
    by_cases inside : place < values.length
    · rw [List.getD_eq_getElem _ _ inside]
      exact bounded _ (List.getElem_mem inside)
    · rw [List.getD_eq_default _ _ (Nat.not_lt.mp inside)]
      decide
  have first := digit 0
  have second := digit 1
  have third := digit 2
  have fourth := digit 3
  unfold groupNumber
  omega

theorem symbolValues_eq_ok_iff {offset : Nat} {bytes : Bytes}
    {values : List Nat} :
    symbolValues offset bytes = .ok values ↔
      (∀ value ∈ values, value < 64) ∧ bytes = values.map symbol := by
  induction bytes generalizing offset values with
  | nil =>
      cases values with
      | nil => simp [symbolValues]
      | cons value values => simp [symbolValues]
  | cons byte bytes ih =>
      unfold symbolValues
      constructor
      · intro read
        split at read
        · contradiction
        · rename_i value place
          obtain ⟨bound, rfl⟩ :=
            (idxOf?_eq_some_iff_getD alphabet_nodup).mp place
          obtain ⟨others, othersRead, same⟩ := Error.bind_eq_ok_iff.mp read
          cases same
          obtain ⟨othersBound, rfl⟩ := ih.mp othersRead
          exact ⟨List.forall_mem_cons.mpr ⟨bound, othersBound⟩, rfl⟩
      · rintro ⟨bounded, written⟩
        cases values with
        | nil => contradiction
        | cons value values =>
            obtain ⟨bound, othersBound⟩ := List.forall_mem_cons.mp bounded
            rw [List.map_cons, List.cons.injEq] at written
            obtain ⟨rfl, rfl⟩ := written
            simp only [idxOf?_symbol bound, ih.mpr ⟨othersBound, rfl⟩]
            rfl

theorem symbolValues_map_symbol {values : List Nat}
    (bounded : ∀ value ∈ values, value < 64) (offset : Nat) :
    symbolValues offset (values.map symbol) = .ok values :=
  symbolValues_eq_ok_iff.mpr ⟨bounded, rfl⟩

/-- Whether symbols with the given values make a last group together with the
given padding: there are at least two of them, the group has four characters, and
the bits that no byte takes up are zero. -/
structure LastGroup (values : List Nat) (padding : Nat) : Prop where
  bounded : ∀ value ∈ values, value < 64
  enough : 2 ≤ values.length
  whole : values.length + padding = 4
  clear : ∀ byte ∈ (bigEndian 3 (groupNumber values)).drop
    (values.length - 1), byte = 0

/-- The bytes of a group: one less than there are symbols. -/
def groupBytes (values : List Nat) : Bytes :=
  (bigEndian 3 (groupNumber values)).take (values.length - 1)

theorem LastGroup.decodeLast_eq {values : List Nat} {padding : Nat}
    (group : LastGroup values padding) (offset : Nat) :
    decodeLast offset (values.map symbol ++ List.replicate padding pad) =
      .ok (groupBytes values) := by
  have enough := group.enough
  have notPad : ∀ byte ∈ values.map symbol, (byte != pad) = true := by
    intro byte byteMem
    obtain ⟨value, valueMem, rfl⟩ := List.mem_map.mp byteMem
    exact bne_iff_ne.mpr (symbol_ne_pad (group.bounded value valueMem))
  have written : (values.map symbol ++ List.replicate padding pad).takeWhile
      (· != pad) = values.map symbol := by
    rw [List.takeWhile_append_of_pos notPad]
    simp
  have padded : (values.map symbol ++ List.replicate padding pad).dropWhile
      (· != pad) = List.replicate padding pad := by
    rw [List.dropWhile_append_of_pos notPad]
    simp
  have groupLength :
      (values.map symbol ++ List.replicate padding pad).length = 4 := by
    simpa using group.whole
  unfold decodeLast
  simp only [written, padded, groupLength, Error.bind_eq_ok_iff,
    Error.check_eq_ok_iff, List.length_map]
  refine ⟨values, symbolValues_map_symbol group.bounded offset,
    ?_, ?_, ?_, ?_, rfl⟩
  · rintro ⟨-, few | foreign⟩
    · omega
    · exact foreign (by simp)
  · rintro ⟨-, few⟩
    omega
  · decide
  · exact not_not_intro (by simpa using group.clear)

/-- The written form of at most three bytes, completed by zero bytes to a
number of 24 bits. -/
theorem encodeBytes_of_short {bytes : Bytes} {padding : Nat}
    (nonempty : bytes ≠ []) (whole : bytes.length + padding = 3) :
    encodeBytes bytes =
      (symbols (bigEndianValue (bytes ++ List.replicate padding 0))).take
        (bytes.length + 1) ++ List.replicate padding pad := by
  fun_cases encodeBytes bytes with
  | case1 => contradiction
  | case2 first =>
      have two : padding = 2 := by
        simp only [List.length_singleton] at whole
        omega
      rw [two]
      rfl
  | case3 first second =>
      have one : padding = 1 := by
        simp only [List.length_cons, List.length_nil] at whole
        omega
      rw [one]
      rfl
  | case4 first second third rest =>
      simp only [List.length_cons] at whole
      have none : padding = 0 := by omega
      have lone : rest = [] := List.eq_nil_of_length_eq_zero (by omega)
      rw [none, lone]
      rfl

theorem LastGroup.encodeBytes_eq {values : List Nat} {padding : Nat}
    (group : LastGroup values padding) :
    encodeBytes (groupBytes values) =
      values.map symbol ++ List.replicate padding pad := by
  obtain ⟨bounded, enough, whole, clear⟩ := group
  have bound := groupNumber_lt bounded
  have digits := take_sextets_groupNumber bounded (by omega)
  unfold groupBytes
  generalize groupNumber values = number at *
  have count : ((bigEndian 3 number).take (values.length - 1)).length =
      values.length - 1 := by
    rw [List.length_take, bigEndian_length]
    omega
  have zeros : (bigEndian 3 number).drop (values.length - 1) =
      List.replicate padding 0 := by
    refine List.eq_replicate_iff.mpr ⟨?_, clear⟩
    rw [List.length_drop, bigEndian_length]
    omega
  have filled : (bigEndian 3 number).take (values.length - 1) ++
      List.replicate padding 0 = bigEndian 3 number := by
    rw [← zeros, List.take_append_drop]
  have nonempty : (bigEndian 3 number).take (values.length - 1) ≠ [] := by
    apply List.ne_nil_of_length_pos
    omega
  have completed : ((bigEndian 3 number).take (values.length - 1)).length +
      padding = 3 := by omega
  rw [encodeBytes_of_short nonempty completed, filled,
    bigEndianValue_bigEndian, Nat.mod_eq_of_lt bound, count,
    Nat.sub_add_cancel (by omega), symbols_eq_map, ← List.map_take, digits]

/-- At most three bytes are those of a last group. -/
theorem exists_lastGroup {bytes : Bytes} (nonempty : bytes ≠ [])
    (short : bytes.length ≤ 3) :
    ∃ values padding, LastGroup values padding ∧ groupBytes values = bytes := by
  obtain ⟨padding, whole⟩ := Nat.exists_eq_add_of_le short
  have filledLength : (bytes ++ List.replicate padding 0).length = 3 := by
    simpa using whole.symm
  have filled := bigEndian_bigEndianValue (bytes ++ List.replicate padding 0)
  have bound := bigEndianValue_lt (bytes ++ List.replicate padding 0)
  rw [filledLength] at filled bound
  -- Each byte left out leaves a digit out: 64 divides 256.
  have zeros : bigEndianValue (bytes ++ List.replicate padding 0) %
      64 ^ (4 - (bytes.length + 1)) = 0 := by
    rw [bigEndianValue_append_replicate_zero,
      show 4 - (bytes.length + 1) = padding by omega]
    have powers : 64 ^ padding ∣ 256 ^ padding :=
      pow_dvd_pow_of_dvd (by decide) padding
    exact Nat.mod_eq_zero_of_dvd (powers.mul_right _)
  have number := groupNumber_take bound (by omega) zeros
  generalize bigEndianValue (bytes ++ List.replicate padding 0) = group at *
  have count : ((sextets group).take (bytes.length + 1)).length =
      bytes.length + 1 := by
    rw [List.length_take]
    change min _ 4 = _
    omega
  have positive := List.length_pos_of_ne_nil nonempty
  refine ⟨(sextets group).take (bytes.length + 1), padding,
    ⟨?_, by omega, by omega, ?_⟩, ?_⟩
  · exact fun _ valueMem => lt_of_mem_sextets (List.mem_of_mem_take valueMem)
  · rw [number, filled, count, Nat.add_sub_cancel, List.drop_left]
    exact fun _ => List.eq_of_mem_replicate
  · rw [groupBytes, number, filled, count, Nat.add_sub_cancel, List.take_left]

theorem decodeLast_encodeBytes {bytes : Bytes} (nonempty : bytes ≠ [])
    (short : bytes.length ≤ 3) (offset : Nat) :
    decodeLast offset (encodeBytes bytes) = .ok bytes := by
  obtain ⟨values, padding, group, rfl⟩ := exists_lastGroup nonempty short
  rw [group.encodeBytes_eq, group.decodeLast_eq]

/-- A group that is not the last has no padding. -/
theorem decodeGroups_symbols_append {number offset : Nat} {rest bytes : Bytes}
    (bound : number < 256 ^ 3) (more : rest ≠ [])
    (restRead : decodeGroups (offset + 4) rest = .ok bytes) :
    decodeGroups offset (symbols number ++ rest) =
      .ok (bigEndian 3 number ++ bytes) := by
  have group := groupNumber_take bound (le_refl 4) (Nat.mod_one number)
  obtain ⟨next, others, rfl⟩ := List.exists_cons_of_ne_nil more
  simp only [symbols, List.cons_append, List.nil_append, decodeGroups,
    Error.bind_eq_ok_iff]
  refine ⟨sextets number,
    symbolValues_map_symbol (fun _ => lt_of_mem_sextets) offset,
    bytes, restRead, ?_⟩
  exact congrArg (fun number => Except.ok (bigEndian 3 number ++ bytes)) group

theorem encodeBytes_ne_nil {bytes : Bytes} (nonempty : bytes ≠ []) :
    encodeBytes bytes ≠ [] := by
  fun_cases encodeBytes bytes
  · contradiction
  all_goals simp [symbols]

theorem decodeGroups_eq_decodeLast {group : Bytes} (short : group.length ≤ 4)
    (offset : Nat) : decodeGroups offset group = decodeLast offset group := by
  unfold decodeGroups
  split
  · simp at short
    omega
  · rfl

theorem decodeGroups_encodeBytes (bytes : Bytes) (offset : Nat) :
    decodeGroups offset (encodeBytes bytes) = .ok bytes := by
  fun_induction encodeBytes bytes generalizing offset with
  | case1 => rfl
  | case2 first =>
      rw [decodeGroups_eq_decodeLast (by simp [symbols])]
      exact decodeLast_encodeBytes (List.cons_ne_nil first []) (by simp) offset
  | case3 first second =>
      rw [decodeGroups_eq_decodeLast (by simp [symbols])]
      exact decodeLast_encodeBytes (List.cons_ne_nil first [second]) (by simp)
        offset
  | case4 first second third rest ih =>
      -- A full group may be the last one, which is read by other rules.
      cases rest with
      | nil =>
          rw [encodeBytes, List.append_nil,
            decodeGroups_eq_decodeLast (by simp [symbols])]
          exact decodeLast_encodeBytes
            (List.cons_ne_nil first [second, third]) (by simp) offset
      | cons next others =>
          have group := bigEndian_bigEndianValue [first, second, third]
          have bound := bigEndianValue_lt [first, second, third]
          rw [decodeGroups_symbols_append bound
            (encodeBytes_ne_nil (List.cons_ne_nil _ _)) (ih _)]
          exact congrArg (fun front => Except.ok (front ++ next :: others))
            group

theorem length_encodeBytes_mod (bytes : Bytes) :
    (encodeBytes bytes).length % 4 = 0 := by
  fun_induction encodeBytes bytes with
  | case1 | case2 | case3 => simp [symbols]
  | case4 first second third rest ih =>
      rw [List.length_append]
      change (4 + (encodeBytes rest).length) % 4 = 0
      omega

theorem lt_of_mem_encodeBytes {bytes : Bytes} :
    ∀ byte ∈ encodeBytes bytes, byte < 128 := by
  fun_induction encodeBytes bytes <;> simp_all [symbols, symbol_lt, pad]

/-- The padding and the zero bits after the last symbol leave one written form
to a last group. -/
theorem eq_encodeBytes_of_decodeLast {group bytes : Bytes} {offset : Nat}
    (short : group.length ≤ 4) (read : decodeLast offset group = .ok bytes) :
    group = encodeBytes bytes := by
  unfold decodeLast at read
  simp only [Error.bind_eq_ok_iff, Error.check_eq_ok_iff] at read
  obtain ⟨values, found, padded, enough, whole, clear, returned⟩ := read
  cases returned
  have division := List.takeWhile_append_dropWhile (p := (· != pad)) (l := group)
  generalize group.takeWhile (· != pad) = written at *
  generalize group.dropWhile (· != pad) = padding at *
  subst division
  obtain ⟨bounded, rfl⟩ := symbolValues_eq_ok_iff.mp found
  by_cases empty : values.map symbol ++ padding = []
  · obtain ⟨noSymbols, rfl⟩ := List.append_eq_nil_iff.mp empty
    rw [noSymbols]
    rfl
  · have padsOnly : padding = List.replicate padding.length pad := by
      apply List.eq_replicate_of_mem
      intro byte byteMem
      by_contra foreign
      apply padded
      refine ⟨List.ne_nil_of_mem byteMem, .inr ?_⟩
      simpa using ⟨byte, byteMem, foreign⟩
    rw [List.length_append] at short whole
    rw [List.length_map] at short whole enough clear ⊢
    have several : 2 ≤ values.length := by
      by_contra few
      exact enough ⟨empty, by omega⟩
    have last : LastGroup values padding.length :=
      ⟨bounded, several, by omega, by simpa using clear⟩
    change _ = encodeBytes (groupBytes values)
    rw [last.encodeBytes_eq, ← padsOnly]

theorem encodeBytes_append_of_length {group : Bytes} (full : group.length = 3)
    (rest : Bytes) :
    encodeBytes (group ++ rest) =
      symbols (bigEndianValue group) ++ encodeBytes rest := by
  obtain ⟨first, second, third, rfl⟩ := List.length_eq_three.mp full
  rfl

theorem eq_encodeBytes_of_decodeGroups {text bytes : Bytes} {offset : Nat}
    (read : decodeGroups offset text = .ok bytes) :
    text = encodeBytes bytes := by
  fun_induction decodeGroups offset text generalizing bytes with
  | case1 offset first second third fourth next rest ih =>
      obtain ⟨values, found, read⟩ := Error.bind_eq_ok_iff.mp read
      obtain ⟨others, othersRead, returned⟩ := Error.bind_eq_ok_iff.mp read
      cases returned
      obtain ⟨bounded, written⟩ := symbolValues_eq_ok_iff.mp found
      have count : values.length = 4 := by
        simpa using (congrArg List.length written).symm
      have digits := take_sextets_groupNumber bounded count.le
      rw [count] at digits
      change sextets (groupNumber values) = values at digits
      rw [encodeBytes_append_of_length (bigEndian_length 3 _), ← ih othersRead,
        bigEndianValue_bigEndian, Nat.mod_eq_of_lt (groupNumber_lt bounded),
        symbols_eq_map, digits, ← written]
      rfl
  | case2 offset last notLonger =>
      refine eq_encodeBytes_of_decodeLast ?_ read
      rcases last with _ | ⟨first, _ | ⟨second, _ | ⟨third, _ |
        ⟨fourth, _ | ⟨next, rest⟩⟩⟩⟩⟩
      case cons.cons.cons.cons.cons =>
        exact (notLonger first second third fourth next rest rfl).elim
      all_goals simp

/-- What is written is read back. -/
theorem decode_encode (bytes : Bytes) : decode (encode bytes) = .ok bytes := by
  unfold decode encode
  rw [utf8Bytes_asciiText lt_of_mem_encodeBytes]
  simp only [Error.check_eq_ok_iff]
  refine ⟨?_, decodeGroups_encodeBytes bytes 0⟩
  rw [length_encodeBytes_mod]
  rintro ⟨lone, -⟩
  contradiction

/-- A text is read exactly if it is the written form of what it is read as. -/
theorem decode_eq_ok_iff {text : String} {bytes : Bytes} :
    decode text = .ok bytes ↔ text = encode bytes := by
  constructor
  · intro read
    simp only [decode, Error.check_eq_ok_iff] at read
    exact (utf8Bytes_eq_iff_of_ascii lt_of_mem_encodeBytes).mp
      (eq_encodeBytes_of_decodeGroups read.2)
  · rintro rfl
    exact decode_encode bytes

theorem encode_injective : Function.Injective encode := by
  intro first second same
  have read := decode_eq_ok_iff.mpr same
  rw [decode_encode] at read
  exact Except.ok.inj read

end Base64

end CoinSpend
