import Mathlib.Computability.Language

/-! Languages that one forward pass over their letters recognises. The letters, the classes
that they are told apart by, and the languages are arbitrary. -/
namespace Iamf.GreedyLanguage
open scoped Computability

variable {α β : Type} {kind : α → Bool} {L M : Language α}

def single (kind : α → Bool) : Language α := {w | ∃ x, kind x = true ∧ w = [x]}

theorem nilSingle : [] ∉ single kind * L := by
  rintro ⟨_, ⟨x, _, rfl⟩, w, _, same⟩
  cases same

theorem consSingle {x : α} {w : List α} : x :: w ∈ single kind * L ↔ kind x = true ∧ w ∈ L := by
  constructor
  · rintro ⟨_, ⟨y, among, rfl⟩, u, inside, same⟩
    cases same
    exact ⟨among, inside⟩
  · rintro ⟨among, inside⟩
    exact ⟨[x], ⟨x, among, rfl⟩, w, inside, rfl⟩

theorem memOptional {w : List α} : w ∈ (1 + L) * M ↔ w ∈ M ∨ w ∈ L * M := by
  rw [add_mul, one_mul, Language.mem_add]

theorem memRepeated {w : List α} : w ∈ L∗ * M ↔ w ∈ M ∨ w ∈ L * (L∗ * M) := by
  conv_lhs => rw [← Language.one_add_self_mul_kstar_eq_kstar, memOptional, mul_assoc]

theorem repeatedSingle {w : List α} : w ∈ (single kind)∗ ↔ w.all kind = true := by
  induction w with
  | nil => simp [Language.nil_mem_kstar]
  | cons x w ih =>
    rw [← mul_one (single kind)∗, memRepeated, consSingle, mul_one, ih, List.all_cons, Bool.and_eq_true]
    simp [Language.mem_one]

def Avoids (kind : α → Bool) (L : Language α) : Prop := ∀ x w, x :: w ∈ L → kind x = false

theorem avoidsOne : Avoids kind 1 := by
  intro x w inside
  cases inside

theorem avoidsSingle {other : α → Bool} (apart : ∀ x, other x = true → kind x = false) :
    Avoids kind (single other * L) := fun x _ inside => apart x (consSingle.mp inside).1

theorem avoidsAdd (left : Avoids kind L) (right : Avoids kind M) : Avoids kind (L + M) := fun x w inside =>
  inside.elim (left x w) (right x w)

theorem avoidsOptional (first : Avoids kind (L * M)) (next : Avoids kind M) : Avoids kind ((1 + L) * M) :=
  fun x w inside => (memOptional.mp inside).elim (next x w) (first x w)

theorem avoidsRepeated (first : ∀ N, Avoids kind (L * N)) (next : Avoids kind M) : Avoids kind (L∗ * M) :=
  fun x w inside => (memRepeated.mp inside).elim (next x w) (first _ x w)

theorem dropWhileMem (avoids : Avoids kind M) {w : List α} : w.dropWhile kind ∈ M ↔ w ∈ (single kind)∗ * M := by
  induction w with
  | nil => rw [memRepeated, List.dropWhile_nil]; simp [nilSingle]
  | cons x w ih =>
    rw [memRepeated, consSingle]
    cases among : kind x with
    | true =>
      rw [List.dropWhile_cons_of_pos among, ih]
      have other : x :: w ∉ M := fun inside => by rw [avoids x w inside] at among; cases among
      simp [other]
    | false => rw [List.dropWhile_cons_of_neg (by simp [among])]; simp

theorem nilBounded (n : Nat) : [] ∈ (1 + single kind) ^ n * M ↔ [] ∈ M := by
  induction n with
  | zero => rw [pow_zero, one_mul]
  | succ n ih => rw [pow_succ', mul_assoc, memOptional, ih, or_iff_left nilSingle]

theorem otherBounded {x : α} {w : List α} (other : kind x = false) (n : Nat) :
    x :: w ∈ (1 + single kind) ^ n * M ↔ x :: w ∈ M := by
  induction n with
  | zero => rw [pow_zero, one_mul]
  | succ n ih => rw [pow_succ', mul_assoc, memOptional, ih, consSingle, other]; simp

theorem tailBounded (avoids : Avoids kind M) {x : α} {w : List α} (among : kind x = true) {n : Nat}
    (inside : x :: w ∈ (1 + single kind) ^ n * M) : w ∈ (1 + single kind) ^ n * M := by
  induction n with
  | zero =>
    rw [pow_zero, one_mul] at inside
    rw [avoids x w inside] at among
    cases among
  | succ n ih =>
    rw [pow_succ', mul_assoc, memOptional, consSingle] at inside
    rw [pow_succ', mul_assoc, memOptional]
    exact .inl (inside.elim ih (·.2))

theorem kindBounded (avoids : Avoids kind M) {x : α} {w : List α} (among : kind x = true) (n : Nat) :
    x :: w ∈ (1 + single kind) ^ (n + 1) * M ↔ w ∈ (1 + single kind) ^ n * M := by
  rw [pow_succ', mul_assoc, memOptional, consSingle]
  exact ⟨fun inside => inside.elim (tailBounded avoids among) (·.2), fun inside => .inr ⟨among, inside⟩⟩

theorem optionalFirst (n : Nat) : 1 + L * (1 + L) ^ n = (1 + L) ^ (n + 1) := by
  induction n with
  | zero => rw [pow_zero, mul_one, pow_one]
  | succ n ih =>
    calc 1 + L * (1 + L) ^ (n + 1)
        = 1 + (L * (1 + L) ^ n + L * (L * (1 + L) ^ n)) := by rw [pow_succ', add_mul, one_mul, mul_add]
      _ = (1 + L * (1 + L) ^ n) + (L * (1 + L) ^ n + L * (L * (1 + L) ^ n)) := by
        rw [add_assoc, ← add_assoc (L * (1 + L) ^ n), add_idem]
      _ = (1 + L) ^ (n + 1) + L * (1 + L) ^ (n + 1) := by rw [← mul_add, ih, pow_succ', add_mul, one_mul]
      _ = (1 + L) ^ (n + 1 + 1) := by rw [pow_succ' (1 + L) (n + 1), add_mul, one_mul]

def Within (P : α → Prop) (L : Language α) : Prop := ∀ w ∈ L, ∀ x ∈ w, P x

section

variable {P : α → Prop}

theorem withinOne : Within P 1 := by
  rintro w rfl x among
  cases among

theorem withinSingle (good : ∀ x, kind x = true → P x) : Within P (single kind) := by
  rintro _ ⟨x, among, rfl⟩ y inside
  cases List.mem_singleton.mp inside
  exact good x among

theorem withinAdd (left : Within P L) (right : Within P M) : Within P (L + M) := fun w inside =>
  inside.elim (left w) (right w)

theorem withinMul (left : Within P L) (right : Within P M) : Within P (L * M) := by
  rintro _ ⟨u, first, v, second, rfl⟩ x among
  exact (List.mem_append.mp among).elim (left u first x) (right v second x)

theorem withinPow (each : Within P L) (n : Nat) : Within P (L ^ n) := by
  induction n with
  | zero => rw [pow_zero]; exact withinOne
  | succ n ih => rw [pow_succ]; exact withinMul ih each

theorem withinRepeated (each : Within P L) : Within P L∗ := by
  rintro _ ⟨words, rfl, all⟩ x among
  obtain ⟨w, inside, here⟩ := List.mem_flatten.mp among
  exact each w (all w inside) x here

end

theorem flatMapFlatten (word : α → List β) (words : List (List α)) :
    words.flatten.flatMap word = (words.map (·.flatMap word)).flatten := by
  induction words with
  | nil => rfl
  | cons w words ih => rw [List.flatten_cons, List.flatMap_append, ih, List.map_cons, List.flatten_cons]

def spelled (word : α → List β) (L : Language α) : Language β := {t | ∃ w ∈ L, w.flatMap word = t}

section

variable {word : α → List β}

theorem spelledOne : spelled word 1 = 1 := by
  ext t
  constructor
  · rintro ⟨_, rfl, rfl⟩; rfl
  · rintro rfl; exact ⟨[], rfl, rfl⟩

theorem spelledAdd : spelled word (L + M) = spelled word L + spelled word M := by
  ext t
  constructor
  · rintro ⟨w, inside, rfl⟩
    exact inside.imp (fun left => ⟨w, left, rfl⟩) (fun right => ⟨w, right, rfl⟩)
  · rintro (⟨w, left, rfl⟩ | ⟨w, right, rfl⟩)
    · exact ⟨w, .inl left, rfl⟩
    · exact ⟨w, .inr right, rfl⟩

theorem spelledMul : spelled word (L * M) = spelled word L * spelled word M := by
  ext t
  constructor
  · rintro ⟨_, ⟨u, first, v, second, rfl⟩, rfl⟩
    exact ⟨_, ⟨u, first, rfl⟩, _, ⟨v, second, rfl⟩, List.flatMap_append.symm⟩
  · rintro ⟨_, ⟨u, first, rfl⟩, _, ⟨v, second, rfl⟩, rfl⟩
    exact ⟨u ++ v, ⟨u, first, v, second, rfl⟩, List.flatMap_append⟩

theorem spelledPow (n : Nat) : spelled word (L ^ n) = spelled word L ^ n := by
  induction n with
  | zero => rw [pow_zero, pow_zero, spelledOne]
  | succ n ih => rw [pow_succ, pow_succ, spelledMul, ih]

theorem spelledRepeated : spelled word L∗ = (spelled word L)∗ := by
  ext t
  constructor
  · rintro ⟨_, ⟨words, rfl, all⟩, rfl⟩
    refine ⟨words.map (·.flatMap word), ?_, ?_⟩
    · exact flatMapFlatten word words
    · intro y among
      obtain ⟨w, inside, rfl⟩ := List.mem_map.mp among
      exact ⟨w, all w inside, rfl⟩
  · rintro ⟨words, rfl, all⟩
    induction words with
    | nil => exact ⟨[], Language.nil_mem_kstar L, rfl⟩
    | cons t words ih =>
      obtain ⟨w, inside, rfl⟩ := all t List.mem_cons_self
      obtain ⟨u, rest, flat⟩ := ih fun y among => all y (List.mem_cons_of_mem _ among)
      refine ⟨w ++ u, ?_, by rw [List.flatMap_append, flat, List.flatten_cons]⟩
      obtain ⟨words', rfl, all'⟩ := rest
      exact ⟨w :: words', rfl, List.forall_mem_cons.mpr ⟨inside, all'⟩⟩

end

theorem intercalateCons (sep : α) (first : List α) (rest : List (List α)) :
    [sep].intercalate (first :: rest) = first ++ rest.flatMap (sep :: ·) := by
  induction rest generalizing first with
  | nil => simp
  | cons next rest ih => rw [List.intercalate_cons_cons, ih, List.flatMap_cons]; simp

theorem memSplit [BEq α] [LawfulBEq α] {sep : α} {F : Language α} {L : Language (List α)} (head : Within (· ≠ sep) F)
    (tail : Within (sep ∉ ·) L) {t : List α} :
    t ∈ F * spelled (sep :: ·) L ↔ ∃ first rest, t.splitOn sep = first :: rest ∧ first ∈ F ∧ rest ∈ L := by
  constructor
  · rintro ⟨first, inside, _, ⟨rest, tailed, rfl⟩, rfl⟩
    refine ⟨first, rest, ?_, inside, tailed⟩
    have free : ∀ piece ∈ first :: rest, sep ∉ piece :=
      List.forall_mem_cons.mpr ⟨fun among => head first inside sep among rfl, tail rest tailed⟩
    rw [← List.splitOn_intercalate sep free (List.cons_ne_nil _ _), intercalateCons]
  · rintro ⟨first, rest, split, inside, tailed⟩
    have joined : [sep].intercalate (t.splitOn sep) = t := List.intercalate_splitOn sep
    rw [split, intercalateCons] at joined
    exact ⟨first, inside, _, ⟨rest, tailed, rfl⟩, joined⟩

theorem memSplitAt [BEq α] [LawfulBEq α] {sep : α} {F : Language α} {L : Language (List α)}
    (head : Within (· ≠ sep) F) (tail : Within (sep ∉ ·) L) {t first : List α} {rest : List (List α)}
    (split : t.splitOn sep = first :: rest) : t ∈ F * spelled (sep :: ·) L ↔ first ∈ F ∧ rest ∈ L := by
  rw [memSplit head tail]
  constructor
  · rintro ⟨_, _, other, inside⟩
    cases split.symm.trans other
    exact inside
  · exact fun inside => ⟨first, rest, split, inside⟩

def Closed (same : α → α → Prop) (L : Language α) : Prop := ∀ u v, u ∈ L → List.Forall₂ same u v → v ∈ L

section

variable {same : α → α → Prop}

theorem closedOne : Closed same 1 := by
  rintro u v rfl related
  cases related
  rfl

theorem closedAdd (left : Closed same L) (right : Closed same M) : Closed same (L + M) := fun u v inside related =>
  inside.imp (left u v · related) (right u v · related)

theorem relatedAppend {a b v : List α} (related : List.Forall₂ same (a ++ b) v) :
    ∃ c d, List.Forall₂ same a c ∧ List.Forall₂ same b d ∧ v = c ++ d := by
  induction a generalizing v with
  | nil => exact ⟨[], v, .nil, related, rfl⟩
  | cons x a ih =>
    cases related with
    | cons head tail =>
      obtain ⟨c, d, headed, tailed, rfl⟩ := ih tail
      exact ⟨_ :: c, d, .cons head headed, tailed, rfl⟩

theorem closedMul (left : Closed same L) (right : Closed same M) : Closed same (L * M) := by
  rintro _ v ⟨a, first, b, second, rfl⟩ related
  obtain ⟨c, d, headed, tailed, rfl⟩ := relatedAppend related
  exact ⟨c, left a c first headed, d, right b d second tailed, rfl⟩

theorem closedPow (each : Closed same L) (n : Nat) : Closed same (L ^ n) := by
  induction n with
  | zero => rw [pow_zero]; exact closedOne
  | succ n ih => rw [pow_succ]; exact closedMul ih each

theorem closedRepeated (each : Closed same L) : Closed same L∗ := by
  rintro _ v ⟨words, rfl, all⟩ related
  induction words generalizing v with
  | nil => cases related; exact Language.nil_mem_kstar L
  | cons w words ih =>
    obtain ⟨inside, others⟩ := List.forall_mem_cons.mp all
    obtain ⟨c, d, headed, tailed, rfl⟩ := relatedAppend related
    obtain ⟨words', rfl, all'⟩ := ih d others tailed
    exact ⟨c :: words', rfl, List.forall_mem_cons.mpr ⟨each w c inside headed, all'⟩⟩

end

end Iamf.GreedyLanguage
