import Iamf.TapeCodec

/-! What a value read off a tape has cost. A reader starts with some bits already paid, and a
value may cost at most these and the ones it takes itself. -/
namespace Iamf.TapeCodec
open ReadTape

section

variable {E R α β : Type} [ReadTape R]

/-- With `paid` bits taken before it, no value of `f` costs more than was taken in all. -/
def Costs (paid : Nat) (f : EStateM E R α) (cost : α → Nat) : Prop :=
  Consumes f fun v bs => cost v ≤ paid + bs.length

variable {paid : Nat}

theorem costsBind {f : EStateM E R α} {k : α → EStateM E R β} {c : α → Nat} {cost : β → Nat}
    (first : Costs 0 f c) (next : ∀ v, Costs (paid + c v) (k v) cost) : Costs paid (f >>= k) cost := by
  refine consumesBind first fun v bs spent => consumesMono (next v) fun u cs within => ?_
  rw [List.length_append]
  omega

theorem costsPure {v : α} {cost : α → Nat} (enough : cost v ≤ paid) :
    Costs paid (pure v : EStateM E R α) cost := consumesPure enough

theorem costsThrow (e : E) (cost : α → Nat) : Costs paid (throw e : EStateM E R α) cost := consumesThrow e _

theorem costsLast {f : EStateM E R α} {c cost : α → Nat} (last : Costs 0 f c)
    (enough : ∀ v, cost v ≤ paid + c v) : Costs paid f cost :=
  consumesMono last fun v bs within => by
    have most := enough v
    omega

theorem costsReturn {f : EStateM E R α} {j : α → β} {cost : β → Nat} (first : Costs 0 f fun v => cost (j v)) :
    Costs 0 (f >>= fun v => pure (j v)) cost :=
  costsBind first fun _ => costsPure (Nat.le_add_left _ _)

theorem costsEnsure {ok : Bool} {e : E} {k : Unit → EStateM E R α} {cost : α → Nat}
    (next : ok = true → Costs paid (k ()) cost) : Costs paid (ensure ok e >>= k) cost := consumesEnsure next

theorem costsOrThrow {x : Except E α} {k : α → EStateM E R β} {cost : β → Nat}
    (next : ∀ v, x = .ok v → Costs paid (k v) cost) : Costs paid (orThrow x >>= k) cost := by
  cases x with
  | error e => exact costsThrow e cost
  | ok v => exact next v rfl

theorem costsMany {f : EStateM E R α} {cost : α → Nat} (item : Costs 0 f cost) (n : Nat) :
    Costs 0 (readMany f n) fun vs => (vs.map cost).sum := by
  induction n with
  | zero => exact costsPure (Nat.le_refl 0)
  | succ n ih =>
    refine costsBind item fun v => costsBind ih fun vs => costsPure ?_
    rw [List.map_cons, List.sum_cons, Nat.zero_add]

end

end Iamf.TapeCodec
