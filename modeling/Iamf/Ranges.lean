import Mathlib.Data.List.Basic
import Mathlib.Data.List.Induction

/-! Adjacent pieces of a list, each known by where it begins and where it ends. -/
namespace Iamf.Wire

structure Range where
  start : Nat
  stop : Nat
  deriving DecidableEq, Repr

section

variable {T : Type}

def rangesOf : Nat → List (List T) → List Range
  | _, [] => []
  | start, piece :: pieces => ⟨start, start + piece.length⟩ :: rangesOf (start + piece.length) pieces

theorem rangesSnoc (start : Nat) (pieces : List (List T)) (piece : List T) : rangesOf start (pieces ++ [piece]) =
    rangesOf start pieces ++ [⟨start + pieces.flatten.length, start + pieces.flatten.length + piece.length⟩] := by
  induction pieces generalizing start with
  | nil => simp [rangesOf]
  | cons head pieces ih =>
    simp only [List.cons_append, rangesOf, ih, List.flatten_cons, List.length_append, ← Nat.add_assoc]

theorem rangesFrom {start : Nat} {pieces : List (List T)} {range : Range} (among : range ∈ rangesOf start pieces) :
    start ≤ range.start := by
  induction pieces generalizing start with
  | nil => cases among
  | cons piece pieces ih =>
    rcases List.mem_cons.mp among with rfl | later
    · exact Nat.le_refl _
    · have := ih later
      omega

theorem rangesFilled {start : Nat} {pieces : List (List T)} (filled : ∀ piece ∈ pieces, piece ≠ []) :
    ∀ range ∈ rangesOf start pieces, range.start < range.stop := by
  induction pieces generalizing start with
  | nil => intro range among; cases among
  | cons piece pieces ih =>
    obtain ⟨first, others⟩ := List.forall_mem_cons.mp filled
    refine List.forall_mem_cons.mpr ⟨?_, ih others⟩
    have := List.length_pos_iff.mpr first
    change start < start + piece.length
    omega

theorem rangesAdjacent (start : Nat) (pieces : List (List T)) :
    (rangesOf start pieces).IsChain fun a b => a.stop = b.start := by
  induction pieces generalizing start with
  | nil => exact .nil
  | cons piece pieces ih =>
    cases pieces with
    | nil => exact .singleton _
    | cons next pieces => exact .cons_cons rfl (ih _)

theorem rangesIncrease (start : Nat) (pieces : List (List T)) :
    (rangesOf start pieces).Pairwise fun a b => a.stop ≤ b.start := by
  induction pieces generalizing start with
  | nil => exact .nil
  | cons piece pieces ih => exact .cons (fun _ later => rangesFrom later) (ih _)

theorem rangesLast {start : Nat} {pieces : List (List T)} {range : Range}
    (last : (rangesOf start pieces).getLast? = some range) : range.stop = start + pieces.flatten.length := by
  cases pieces using List.reverseRecOn with
  | nil => cases last
  | append_singleton pieces piece =>
    rw [rangesSnoc, List.getLast?_concat, Option.some_inj] at last
    simp [← last, Nat.add_assoc]

theorem rangesCover {start index : Nat} {pieces : List (List T)} (from' : start ≤ index)
    (below : index < start + pieces.flatten.length) :
    ∃ range ∈ rangesOf start pieces, range.start ≤ index ∧ index < range.stop := by
  induction pieces generalizing start with
  | nil => simp at below; omega
  | cons piece pieces ih =>
    rw [List.flatten_cons, List.length_append] at below
    by_cases here : index < start + piece.length
    · exact ⟨_, List.mem_cons_self, from', here⟩
    · obtain ⟨range, among, inside⟩ := ih (by omega) (by omega : index < start + piece.length + _)
      exact ⟨range, List.mem_cons_of_mem _ among, inside⟩

theorem rangesWithin (lead : List T) (pieces : List (List T)) :
    (rangesOf lead.length pieces).map (fun range =>
      ((lead ++ pieces.flatten).drop range.start).take (range.stop - range.start)) = pieces := by
  induction pieces generalizing lead with
  | nil => rfl
  | cons piece pieces ih =>
    have rest := ih (lead ++ piece)
    rw [List.append_assoc, List.length_append] at rest
    rw [rangesOf, List.map_cons, List.flatten_cons, rest]
    simp

end

end Iamf.Wire
