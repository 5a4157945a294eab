import Iamf.TapeCodec

/-! Two writers compared by what they can write and by how long it is. Nothing here names a
format. -/
namespace Iamf.TapeCodec
open WriteTape

variable {E F R W α : Type} [ReadTape R] [WriteTape W]

/-- `g` and `h` refuse together, and what they emit differs in length as `m` and `n` octets do. -/
def Resized (m n : Nat) (g h : EStateM F W Unit) : Prop :=
  (Refuses g ∧ Refuses h) ∨ ∃ as bs, Emits g as ∧ Emits h bs ∧ as.length + 8 * n = bs.length + 8 * m

abbrev Definite (g : EStateM F W Unit) : Prop := Resized 0 0 g g

theorem definiteRefuses {g : EStateM F W Unit} (refused : Refuses g) : Definite g := .inl ⟨refused, refused⟩

theorem definiteEmits {g : EStateM F W Unit} {bs : List Bool} (emits : Emits g bs) : Definite g :=
  .inr ⟨bs, bs, emits, emits, rfl⟩

theorem definiteOfPaired {φ ψ : Nat} {g : EStateM F W Unit} {f : EStateM E R α} {v : α} (paired : Paired φ ψ g f v) :
    Definite g := by
  cases paired with
  | inl refused => exact definiteRefuses refused
  | inr written =>
    obtain ⟨bs, _, emits, _⟩ := written
    exact definiteEmits emits

theorem definitePure : Definite (pure () : EStateM F W Unit) := definiteEmits emitsPure

theorem definiteEnsure (ok : Bool) (e : F) : Definite (ensure ok e : EStateM F W Unit) := by
  cases ok with
  | false => exact definiteRefuses (refusesEnsure rfl)
  | true => exact definitePure

theorem resizedBind {m n k l : Nat} {g h : EStateM F W Unit} {g' h' : Unit → EStateM F W Unit}
    (first : Resized m n g h) (next : Resized k l (g' ()) (h' ())) : Resized (m + k) (n + l) (g >>= g') (h >>= h') := by
  rcases first with ⟨left, right⟩ | ⟨as, bs, left, right, lengths⟩
  · exact .inl ⟨refusesBind g' left, refusesBind h' right⟩
  rcases next with ⟨left', right'⟩ | ⟨cs, ds, left', right', lengths'⟩
  · exact .inl ⟨refusesNext left left', refusesNext right right'⟩
  have total : (as ++ cs).length + 8 * (n + l) = (bs ++ ds).length + 8 * (m + k) := by
    rw [List.length_append, List.length_append]
    omega
  exact .inr ⟨as ++ cs, bs ++ ds, emitsBind left left', emitsBind right right', total⟩

theorem definiteBind {g : EStateM F W Unit} {k : Unit → EStateM F W Unit} (first : Definite g)
    (next : Definite (k ())) : Definite (g >>= k) := resizedBind first next

theorem resizedBehind {m n : Nat} {g : EStateM F W Unit} {g' h' : Unit → EStateM F W Unit} (first : Definite g)
    (next : Resized m n (g' ()) (h' ())) : Resized m n (g >>= g') (g >>= h') := by
  have both := resizedBind first next
  rwa [Nat.zero_add, Nat.zero_add] at both

theorem resizedBefore {m n : Nat} {g h : EStateM F W Unit} {k : Unit → EStateM F W Unit} (first : Resized m n g h)
    (next : Definite (k ())) : Resized m n (g >>= k) (h >>= k) := resizedBind first next

theorem resizedEach {g : α → EStateM F W Unit} {size : α → Nat} {vs us : List α}
    (each : List.Forall₂ (fun v u => Resized (size v) (size u) (g v) (g u)) vs us) :
    Resized (vs.map size).sum (us.map size).sum (writeEach g vs) (writeEach g us) := by
  induction each with
  | nil => exact definitePure
  | cons first _ ih => exact resizedBind first ih

theorem definiteEach {g : α → EStateM F W Unit} (each : ∀ v, Definite (g v)) (vs : List α) :
    Definite (writeEach g vs) := by
  induction vs with
  | nil => exact definitePure
  | cons v vs ih => exact definiteBind (each v) ih

theorem forallOfMap {β : Type} {f : α → β} {P : α → α → Prop} (each : ∀ v u, f v = f u → P v u) {vs us : List α}
    (same : vs.map f = us.map f) : List.Forall₂ P vs us := by
  induction vs generalizing us with
  | nil =>
    cases us with
    | nil => exact .nil
    | cons u us => cases same
  | cons v vs ih =>
    cases us with
    | nil => cases same
    | cons u us =>
      obtain ⟨first, others⟩ := List.cons.inj same
      exact .cons (each v u first) (ih others)

end Iamf.TapeCodec
