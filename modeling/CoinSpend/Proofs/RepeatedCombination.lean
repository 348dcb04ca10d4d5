import CoinSpend.Secp256k1
import Mathlib.Algebra.Ring.Nat

/-!
# What repeated combination computes

Seen in a monoid, combining copies of an element is taking a multiple of it.
The combination need not be associative, nor defined sensibly everywhere: it is
enough that it is the addition of the monoid on a set of elements that it does
not leave.
-/

namespace CoinSpend

variable {α M : Type} [AddMonoid M] {combine : α → α → α} {unit : α}

theorem combineDigits_view (Good : α → Prop) (view : α → M)
    (unitGood : Good unit) (unitView : view unit = 0)
    (combineView : ∀ first second, Good first → Good second →
      Good (combine first second) ∧
        view (combine first second) = view first + view second)
    {element : α} (elementGood : Good element)
    {digits count : Nat} (bound : count < 2 ^ digits) :
    Good (combineDigits combine unit element digits count) ∧
      view (combineDigits combine unit element digits count) =
        count • view element := by
  induction digits generalizing count with
  | zero =>
      have zero : count = 0 := by simpa using bound
      subst zero
      exact ⟨unitGood, by rw [zero_nsmul]; exact unitView⟩
  | succ digits ih =>
      have halfBound : count / 2 < 2 ^ digits := by
        rw [Nat.pow_succ] at bound
        omega
      obtain ⟨halfGood, halfView⟩ := ih halfBound
      obtain ⟨doubledGood, doubledView⟩ := combineView _ _ halfGood halfGood
      rw [halfView, ← add_nsmul] at doubledView
      rw [combineDigits]
      split
      · rename_i odd
        obtain ⟨sumGood, sumView⟩ := combineView _ _ doubledGood elementGood
        refine ⟨sumGood, ?_⟩
        rw [sumView, doubledView, ← succ_nsmul]
        congr 1
        omega
      · rename_i notOdd
        refine ⟨doubledGood, ?_⟩
        rw [doubledView]
        congr 1
        omega

theorem combineCopies_view (Good : α → Prop) (view : α → M)
    (unitGood : Good unit) (unitView : view unit = 0)
    (combineView : ∀ first second, Good first → Good second →
      Good (combine first second) ∧
        view (combine first second) = view first + view second)
    {element : α} (elementGood : Good element) (count : Nat) :
    Good (combineCopies combine unit element count) ∧
      view (combineCopies combine unit element count) =
        count • view element :=
  combineDigits_view Good view unitGood unitView combineView elementGood
    Nat.lt_log2_self

end CoinSpend
