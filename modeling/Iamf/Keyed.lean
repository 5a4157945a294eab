import Mathlib.Data.List.Nodup
import Mathlib.Data.List.Sort

/-! Lists of items told apart by a key: how many pairs are equal, and what a stable sort leaves
as it is. Nothing here names a format. -/
namespace Iamf.Keyed

section

variable {α : Type} [DecidableEq α]

def equalPairs : List α → Nat
  | [] => 0
  | x :: xs => xs.count x + equalPairs xs

theorem equalPairsSnoc (xs : List α) (y : α) : equalPairs (xs ++ [y]) = equalPairs xs + xs.count y := by
  induction xs with
  | nil => rfl
  | cons x xs ih =>
    simp only [List.cons_append, equalPairs, ih, List.count_append, List.count_cons, List.count_nil]
    by_cases same : x = y
    · subst same
      omega
    · simp only [beq_iff_eq, same, Ne.symm same, if_false]
      omega

theorem equalPairsPerm {xs ys : List α} (perm : xs.Perm ys) : equalPairs xs = equalPairs ys := by
  induction perm with
  | nil => rfl
  | cons x perm ih => rw [equalPairs, equalPairs, perm.count_eq, ih]
  | swap x y xs =>
    simp only [equalPairs, List.count_cons]
    by_cases same : x = y
    · subst same
      omega
    · simp only [beq_iff_eq, same, Ne.symm same, if_false]
      omega
  | trans _ _ first second => exact first.trans second

theorem equalPairsZero {xs : List α} : equalPairs xs = 0 ↔ xs.Nodup := by
  induction xs with
  | nil => simp [equalPairs]
  | cons x xs ih => rw [equalPairs, Nat.add_eq_zero_iff, ih, List.count_eq_zero, List.nodup_cons]

end

section

variable {α : Type} {le : α → α → Bool}

theorem filterMergeSort (trans : ∀ a b c, le a b → le b c → le a c) (total : ∀ a b, le a b || le b a)
    {p : α → Bool} (tied : ∀ a b, p a → p b → le a b) (xs : List α) :
    (xs.mergeSort le).filter p = xs.filter p := by
  have ranked : (xs.filter p).Pairwise (le · ·) := by
    rw [List.pairwise_iff_forall_sublist]
    intro a b sub
    have among {c : α} (inside : c ∈ [a, b]) : p c := (List.mem_filter.mp (sub.subset inside)).2
    exact tied a b (among (by simp)) (among (by simp))
  have kept := (List.sublist_mergeSort trans total ranked List.filter_sublist).filter p
  rw [List.filter_filter] at kept
  simp only [Bool.and_self] at kept
  exact (kept.eq_of_length ((List.mergeSort_perm xs le).filter p).length_eq.symm).symm

theorem findMergeSort (trans : ∀ a b c, le a b → le b c → le a c) (total : ∀ a b, le a b || le b a)
    {p : α → Bool} (tied : ∀ a b, p a → p b → le a b) (xs : List α) :
    (xs.mergeSort le).find? p = xs.find? p := by
  rw [← List.head?_filter, ← List.head?_filter, filterMergeSort trans total tied]

end

end Iamf.Keyed
