import CoinSpend.Proofs.KeyHashSpends

/-!
# Which scripts have a standard pattern

A script is recognised by its elements, whatever the written forms of its
pushes.
-/

namespace CoinSpend

namespace Script

variable {script : Script} {elements : List ScriptElement}

theorem patternOf_eq_payToKeyHash_iff {keyHash : KeyHash} :
    patternOf elements = .payToKeyHash keyHash ↔
      elements = keyHashElements keyHash := by
  constructor
  · intro recognised
    unfold patternOf at recognised
    split at recognised
    · rename_i data
      split at recognised
      · rename_i found foundEq
        cases recognised
        rw [FixedBytes.ofBytes?_eq_some_iff.mp foundEq]
        rfl
      · contradiction
    · split at recognised <;> contradiction
    · contradiction
  · rintro rfl
    have found : FixedBytes.ofBytes? 20 keyHash.toBytes = some keyHash :=
      FixedBytes.ofBytes?_eq_some_iff.mpr rfl
    simp only [patternOf, keyHashElements, found]

theorem patternOf_eq_signatureAndKey_iff {signature publicKey : Bytes} :
    patternOf elements = .signatureAndKey signature publicKey ↔
      elements = [.push signature, .push publicKey] ∧ signature ≠ [] ∧
        (publicKey.length = 33 ∨ publicKey.length = 65) := by
  constructor
  · intro recognised
    unfold patternOf at recognised
    split at recognised
    · split at recognised <;> contradiction
    · split at recognised
      · rename_i present
        cases recognised
        exact ⟨rfl, present⟩
      · contradiction
    · contradiction
  · rintro ⟨rfl, present⟩
    exact if_pos present

/-- The script of no bytes has no elements, so a pattern that asks for some is
recognised by them alone. -/
theorem pattern_eq_iff {found : ScriptPattern} (notEmpty : found ≠ .empty)
    (notNonStandard : found ≠ .nonStandard) :
    script.pattern = found ↔
      ∃ elements, script.elements = .ok elements ∧
        patternOf elements = found := by
  unfold pattern
  by_cases none : script.toBytes = []
  · have parsed : script.elements = .ok [] :=
      elements_eq_ok_iff.mpr none
    rw [if_pos none, parsed]
    constructor
    · exact fun impossible => absurd impossible.symm notEmpty
    · rintro ⟨_, same, recognised⟩
      cases same
      exact absurd recognised.symm notNonStandard
  · rw [if_neg none]
    cases parsed : script.elements with
    | error error => simp [notNonStandard.symm]
    | ok elements => simp

theorem pattern_eq_payToKeyHash_iff {keyHash : KeyHash} :
    script.pattern = .payToKeyHash keyHash ↔
      script.elements = .ok (keyHashElements keyHash) := by
  rw [pattern_eq_iff ScriptPattern.noConfusion ScriptPattern.noConfusion]
  simp only [patternOf_eq_payToKeyHash_iff, exists_eq_right]

theorem keyHash?_eq_some_iff {keyHash : KeyHash} :
    script.keyHash? = some keyHash ↔
      script.elements = .ok (keyHashElements keyHash) := by
  rw [← pattern_eq_payToKeyHash_iff]
  unfold keyHash?
  split
  · rename_i found recognised
    rw [recognised, Option.some.injEq, ScriptPattern.payToKeyHash.injEq]
  · rename_i notKeyHash
    exact iff_of_false nofun (notKeyHash keyHash)

theorem pattern_eq_signatureAndKey_iff {signature publicKey : Bytes} :
    script.pattern = .signatureAndKey signature publicKey ↔
      script.elements = .ok [.push signature, .push publicKey] ∧
        signature ≠ [] ∧
        (publicKey.length = 33 ∨ publicKey.length = 65) := by
  rw [pattern_eq_iff ScriptPattern.noConfusion ScriptPattern.noConfusion]
  simp only [patternOf_eq_signatureAndKey_iff]
  constructor
  · rintro ⟨_, parsed, rfl, present⟩
    exact ⟨parsed, present⟩
  · rintro ⟨parsed, present⟩
    exact ⟨_, parsed, rfl, present⟩

end Script

end CoinSpend
