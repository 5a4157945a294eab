import Mathlib.Algebra.Order.Floor.Ring
import Mathlib.Data.Rat.Floor
import Mathlib.Tactic.Linarith
import Mathlib.Tactic.NormNum

/-! Rounding to the nearest integer, and of two equally near ones to the even one. -/
namespace Iamf.TiesToEven

section

variable {K : Type} [Field K] [LinearOrder K] [FloorRing K]

def roundTiesEven (x : K) : Int :=
  if Int.fract x < 1 / 2 then ⌊x⌋ else if 1 / 2 < Int.fract x then ⌊x⌋ + 1 else if Even ⌊x⌋ then ⌊x⌋ else ⌊x⌋ + 1

structure Nearest (x : K) (n : Int) : Prop where
  below : x - 1 / 2 ≤ n
  above : (n : K) ≤ x + 1 / 2
  tieBelow : x - 1 / 2 = n → Even n
  tieAbove : (n : K) = x + 1 / 2 → Even n

variable [IsStrictOrderedRing K]

theorem nearestRound (x : K) : Nearest x (roundTiesEven x) := by
  have split := Int.floor_add_fract x
  have low := Int.fract_nonneg x
  have high := Int.fract_lt_one x
  unfold roundTiesEven
  split_ifs with less more even
  · exact ⟨by linarith, by linarith, fun tie => by linarith, fun tie => by linarith⟩
  · refine ⟨?_, ?_, fun tie => ?_, fun tie => ?_⟩ <;> push_cast at * <;> linarith
  · exact ⟨by linarith, by linarith, fun _ => even, fun _ => even⟩
  · have next : Even (⌊x⌋ + 1) := Int.even_add_one.mpr even
    refine ⟨?_, ?_, fun _ => next, fun _ => next⟩ <;> push_cast <;> linarith

theorem nearestMono {x y : K} {m n : Int} (le : x ≤ y) (left : Nearest x m) (right : Nearest y n) : m ≤ n := by
  by_contra above
  have next : n + 1 ≤ m := by omega
  have next' : (n : K) + 1 ≤ m := by exact_mod_cast next
  have below := right.below
  have high := left.above
  have tie : (m : K) = x + 1 / 2 := by linarith
  have tie' : y - 1 / 2 = n := by linarith
  have even := left.tieAbove tie
  have step : m = n + 1 := by
    have cast : (m : K) = (n + 1 : Int) := by push_cast; linarith
    exact_mod_cast cast
  rw [step, Int.even_add_one] at even
  exact even (right.tieBelow tie')

theorem nearestUnique {x : K} {m n : Int} (left : Nearest x m) (right : Nearest x n) : m = n :=
  le_antisymm (nearestMono le_rfl left right) (nearestMono le_rfl right left)

theorem roundIs {x : K} {n : Int} : roundTiesEven x = n ↔ Nearest x n :=
  ⟨fun same => same ▸ nearestRound x, nearestUnique (nearestRound x)⟩

theorem nearestInt (n : Int) : Nearest (n : K) n :=
  ⟨by linarith, by linarith, fun tie => by linarith, fun tie => by linarith⟩

theorem evenLeRound {x : K} {n : Int} (even : Even n) : n ≤ roundTiesEven x ↔ (n : K) - 1 / 2 ≤ x := by
  have near := nearestRound x
  constructor
  · intro le
    have cast : (n : K) ≤ roundTiesEven x := by exact_mod_cast le
    have above := near.above
    linarith
  · intro le
    refine nearestMono (x := (n : K) - 1 / 2) le ⟨?_, ?_, fun _ => even, fun _ => even⟩ near <;> linarith

theorem roundLeOdd {x : K} {n : Int} (odd : ¬ Even n) : roundTiesEven x ≤ n ↔ x < (n : K) + 1 / 2 := by
  have next := evenLeRound (x := x) (Int.even_add_one.mpr odd)
  rw [← not_lt, ← Int.add_one_le_iff, next, not_le]
  push_cast
  constructor <;> intro h <;> linarith

end

example : roundTiesEven (-27467 / 2 : ℚ) = -13734 ∧ roundTiesEven (-27465 / 2 : ℚ) = -13732 := by decide +kernel

end Iamf.TiesToEven
