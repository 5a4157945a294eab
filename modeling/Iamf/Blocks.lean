import Mathlib.Data.List.Basic
import Mathlib.Data.Nat.Init

/-! Lists cut into blocks of one length, and lists put together from such blocks. -/
namespace Iamf.Blocks

variable {α β : Type}

def block (n i : Nat) (xs : List α) : List α := (xs.drop (i * n)).take n

theorem blockLength {n i m : Nat} {xs : List α} (length : xs.length = m * n) (inside : i < m) :
    (block n i xs).length = n := by
  have whole : (i + 1) * n ≤ m * n := Nat.mul_le_mul_right n inside
  rw [Nat.add_mul, Nat.one_mul] at whole
  rw [block, List.length_take, List.length_drop, length]
  omega

theorem blockGet {n i j : Nat} {xs : List α} (inside : j < n) : (block n i xs)[j]? = xs[i * n + j]? := by
  rw [block, List.getElem?_take_of_lt inside, List.getElem?_drop]

theorem blocksJoin {n m : Nat} {xs : List α} (length : xs.length = m * n) :
    (List.range m).flatMap (fun i => block n i xs) = xs := by
  suffices front : ∀ k, (List.range k).flatMap (fun i => block n i xs) = xs.take (k * n) by
    rw [front, ← length, List.take_length]
  intro k
  induction k with
  | zero => simp
  | succ k ih => rw [List.range_succ, List.flatMap_append, ih, Nat.succ_mul, List.take_add]; simp [block]

section

variable {f : β → List α} {n : Nat}

theorem flatMapLength {items : List β} (each : ∀ x ∈ items, (f x).length = n) :
    (items.flatMap f).length = items.length * n := by
  induction items with
  | nil => simp
  | cons x items ih =>
    obtain ⟨head, tail⟩ := List.forall_mem_cons.mp each
    rw [List.flatMap_cons, List.length_append, head, ih tail, List.length_cons, Nat.succ_mul, Nat.add_comm]

theorem blockFlatMap {items : List β} (each : ∀ x ∈ items, (f x).length = n) {i : Nat} {x : β}
    (here : items[i]? = some x) : block n i (items.flatMap f) = f x := by
  induction items generalizing i with
  | nil => cases here
  | cons y items ih =>
    obtain ⟨head, tail⟩ := List.forall_mem_cons.mp each
    cases i with
    | zero =>
      cases here
      rw [block, Nat.zero_mul, List.drop_zero, List.flatMap_cons, ← head, List.take_left]
    | succ i =>
      rw [← ih tail here, block, block, List.flatMap_cons, Nat.succ_mul, Nat.add_comm, ← List.drop_drop, ← head,
        List.drop_left]

end

def places (rows width : Nat) (columns : List Nat) : List Nat :=
  (List.range rows).flatMap fun row => columns.map (row * width + ·)

theorem placesLength (rows width : Nat) (columns : List Nat) :
    (places rows width columns).length = rows * columns.length := by
  rw [places, flatMapLength (fun _ _ => List.length_map _), List.length_range]

theorem placesGet {rows width : Nat} {columns : List Nat} {row position column : Nat} (inside : row < rows)
    (here : columns[position]? = some column) :
    (places rows width columns)[row * columns.length + position]? = some (row * width + column) := by
  have short : position < columns.length := (List.getElem?_eq_some_iff.mp here).1
  have at' : (List.range rows)[row]? = some row := by rw [List.getElem?_range inside]
  rw [← blockGet short, places, blockFlatMap (fun _ _ => List.length_map _) at', List.getElem?_map, here]
  rfl

theorem cellBelow {rows width row column : Nat} (early : row < rows) (inside : column < width) :
    row * width + column < rows * width := by
  rw [Nat.mul_comm row]
  exact Nat.mul_add_lt_mul_of_lt_of_lt early inside

theorem placesBelow {rows width : Nat} {columns : List Nat} (inside : ∀ column ∈ columns, column < width) :
    ∀ place ∈ places rows width columns, place < rows * width := by
  intro place among
  obtain ⟨row, below, here⟩ := List.mem_flatMap.mp among
  obtain ⟨column, among', rfl⟩ := List.mem_map.mp here
  exact cellBelow (List.mem_range.mp below) (inside column among')

theorem rowColumnOnce {width row row' column column' : Nat} (inside : column < width) (inside' : column' < width)
    (same : row * width + column = row' * width + column') : row = row' ∧ column = column' := by
  have positive : 0 < width := Nat.zero_lt_of_lt inside
  have rows : row = row' := by
    have quotients := congrArg (· / width) same
    simpa [Nat.add_comm _ column, Nat.add_comm _ column', Nat.add_mul_div_right _ _ positive, Nat.div_eq_of_lt inside,
      Nat.div_eq_of_lt inside'] using quotients
  subst rows
  exact ⟨rfl, Nat.add_left_cancel same⟩

theorem placesAll (rows width : Nat) : places rows width (List.range width) = List.range (rows * width) := by
  unfold places
  induction rows with
  | zero => simp
  | succ rows ih => rw [List.range_succ, List.flatMap_append, ih, Nat.succ_mul, List.range_add]; simp

end Iamf.Blocks
