import Iamf.BitString

/-! Byte sinks: what a writer is offered is taken in part, in whole or not at all. The laws
say no more than that a reply tells the truth. Nothing here names a format. -/
namespace Iamf
open BitString

inductive Reply where
  | accepted (n : Nat)
  | interrupted
  | failed
  deriving DecidableEq, Repr

/-- `held` is what was accepted so far; `broken` records a failure, or an offer of which
nothing was accepted; `patience` bounds how often one offer is interrupted. -/
structure Sink where
  State : Type
  write : State → Bytes → Reply × State
  flush : State → Bool × State
  held : State → Bytes
  broken : State → Bool
  patience : State → Bytes → Nat
  accepts : ∀ {s s' bytes n}, write s bytes = (.accepted n, s') → n ≤ bytes.length ∧
    held s' = held s ++ bytes.take n ∧ broken s' = (broken s || (n == 0 && !bytes.isEmpty))
  interrupts : ∀ {s s' bytes}, write s bytes = (.interrupted, s') → held s' = held s ∧
    broken s' = broken s ∧ patience s' bytes < patience s bytes
  fails : ∀ {s s' bytes}, write s bytes = (.failed, s') → held s' = held s ∧ broken s' = true
  flushes : ∀ {s s' ok}, flush s = (ok, s') → held s' = held s ∧ broken s' = broken s

namespace Sink

def offer (sink : Sink) (bytes : Bytes) : Nat → sink.State → Option Nat × sink.State
  | 0, s =>
    match sink.write s bytes with
    | (.accepted n, s') => (some n, s')
    | (_, s') => (none, s')
  | calls+1, s =>
    match sink.write s bytes with
    | (.accepted n, s') => (some n, s')
    | (.interrupted, s') => offer sink bytes calls s'
    | (.failed, s') => (none, s')

theorem offerAccepted {sink : Sink} {bytes : Bytes} {calls n : Nat} {s s' : sink.State}
    (enough : sink.patience s bytes ≤ calls) (taken : sink.offer bytes calls s = (some n, s')) : n ≤ bytes.length ∧
      sink.held s' = sink.held s ++ bytes.take n ∧ sink.broken s' = (sink.broken s || (n == 0 && !bytes.isEmpty)) := by
  induction calls generalizing s with
  | zero =>
    unfold offer at taken
    split at taken
    · rename_i write; cases taken; exact sink.accepts write
    · cases taken
  | succ calls ih =>
    unfold offer at taken
    split at taken
    · rename_i write; cases taken; exact sink.accepts write
    · rename_i write
      obtain ⟨held, broken, shorter⟩ := sink.interrupts write
      have rest := ih (by omega) taken
      rwa [held, broken] at rest
    · cases taken

theorem offerFailed {sink : Sink} {bytes : Bytes} {calls : Nat} {s s' : sink.State}
    (enough : sink.patience s bytes ≤ calls) (taken : sink.offer bytes calls s = (none, s')) :
      sink.held s' = sink.held s ∧ sink.broken s' = true := by
  induction calls generalizing s with
  | zero =>
    unfold offer at taken
    split at taken
    · cases taken
    · rename_i reply t other write
      cases taken
      cases reply with
      | accepted n => exact (other n rfl).elim
      | interrupted => have := (sink.interrupts write).2.2; omega
      | failed => exact sink.fails write
  | succ calls ih =>
    unfold offer at taken
    split at taken
    · cases taken
    · rename_i write
      obtain ⟨held, broken, shorter⟩ := sink.interrupts write
      have rest := ih (by omega) taken
      rwa [held] at rest
    · rename_i write; cases taken; exact sink.fails write

def writeAll (sink : Sink) (bytes : Bytes) (s : sink.State) : Bool × sink.State :=
  if bytes = [] then (true, s)
  else
    match sink.offer bytes (sink.patience s bytes) s with
    | (some (n+1), s') => writeAll sink (bytes.drop (n + 1)) s'
    | (_, s') => (false, s')
termination_by bytes.length
decreasing_by
  have positive := List.length_pos_iff.mpr ‹¬bytes = []›
  rw [List.length_drop]
  omega

theorem writeAllHeld {sink : Sink} {bytes : Bytes} {s s' : sink.State} (taken : sink.writeAll bytes s = (true, s')) :
    sink.held s' = sink.held s ++ bytes := by
  induction size : bytes.length using Nat.strong_induction_on generalizing bytes s with
  | _ size' ih =>
    unfold writeAll at taken
    split at taken
    · rename_i empty
      cases taken
      rw [empty, List.append_nil]
    · rename_i more
      have positive := List.length_pos_iff.mpr more
      split at taken
      · rename_i n t offered
        obtain ⟨_, held, _⟩ := offerAccepted (Nat.le_refl _) offered
        have rest := ih (bytes.drop (n + 1)).length (by rw [List.length_drop]; omega) taken rfl
        rw [rest, held, List.append_assoc, List.take_append_drop]
      · cases taken

structure AcceptsAll (sink : Sink) : Prop where
  takes : ∀ s bytes s', bytes ≠ [] → sink.write s bytes ≠ (.failed, s') ∧ sink.write s bytes ≠ (.accepted 0, s')
  flushed : ∀ s, (sink.flush s).1 = true

theorem offerTaken {sink : Sink} (all : sink.AcceptsAll) {bytes : Bytes} (some' : bytes ≠ []) {calls : Nat}
    {s : sink.State} (enough : sink.patience s bytes ≤ calls) :
    ∃ n s', sink.offer bytes calls s = (some (n + 1), s') := by
  induction calls generalizing s with
  | zero =>
    unfold offer
    rcases write : sink.write s bytes with ⟨reply, s'⟩
    cases reply with
    | accepted n =>
      cases n with
      | zero => exact absurd write (all.takes s bytes s' some').2
      | succ n => exact ⟨n, s', rfl⟩
    | interrupted => have := (sink.interrupts write).2.2; omega
    | failed => exact absurd write (all.takes s bytes s' some').1
  | succ calls ih =>
    unfold offer
    rcases write : sink.write s bytes with ⟨reply, s'⟩
    cases reply with
    | accepted n =>
      cases n with
      | zero => exact absurd write (all.takes s bytes s' some').2
      | succ n => exact ⟨n, s', rfl⟩
    | interrupted =>
      have := (sink.interrupts write).2.2
      exact ih (by omega)
    | failed => exact absurd write (all.takes s bytes s' some').1

theorem writeAllTaken {sink : Sink} (all : sink.AcceptsAll) (bytes : Bytes) (s : sink.State) :
    ∃ s', sink.writeAll bytes s = (true, s') := by
  induction size : bytes.length using Nat.strong_induction_on generalizing bytes s with
  | _ size' ih =>
    unfold writeAll
    split
    · rename_i none
      exact ⟨s, rfl⟩
    · rename_i more
      have positive := List.length_pos_iff.mpr more
      obtain ⟨n, t, taken⟩ := offerTaken all more (Nat.le_refl (sink.patience s bytes))
      obtain ⟨s', rest⟩ := ih (bytes.drop (n + 1)).length (by rw [List.length_drop]; omega) _ t rfl
      exact ⟨s', by rw [taken]; exact rest⟩

def buffer : Sink where
  State := Bytes
  write s bytes := (.accepted bytes.length, s ++ bytes)
  flush s := (true, s)
  held s := s
  broken _ := false
  patience _ _ := 0
  accepts := by
    rintro s s' bytes n ⟨⟩
    exact ⟨Nat.le_refl _, by rw [List.take_length], by cases bytes <;> rfl⟩
  interrupts := by rintro s s' bytes ⟨⟩
  fails := by rintro s s' bytes ⟨⟩
  flushes := by rintro s s' ok ⟨⟩; exact ⟨rfl, rfl⟩

theorem bufferAcceptsAll : buffer.AcceptsAll where
  takes := by
    rintro s bytes s' more
    refine ⟨by rintro ⟨⟩, fun taken => more ?_⟩
    exact List.length_eq_zero_iff.mp (Reply.accepted.inj (Prod.mk.inj taken).1)
  flushed _ := rfl

example : (buffer.writeAll [1, 2, 3] [0]).1 = true := by decide +kernel

def limited (room : Nat) : Sink where
  State := Bytes × Bool
  write s bytes :=
    if s.1.length < room then
      (.accepted (min bytes.length (room - s.1.length)), (s.1 ++ bytes.take (room - s.1.length), s.2))
    else (.failed, (s.1, true))
  flush s := (true, s)
  held s := s.1
  broken s := s.2
  patience _ _ := 0
  accepts := by
    intro s s' bytes n taken
    split at taken
    · rename_i free
      cases taken
      refine ⟨Nat.min_le_left _ _, ?_, ?_⟩
      · exact congrArg (s.1 ++ ·) (List.take_eq_take_iff.mpr (by omega))
      · cases bytes with
        | nil => simp
        | cons byte bytes =>
          have some' : (min (byte :: bytes).length (room - s.1.length) == 0) = false := by
            rw [List.length_cons]
            exact beq_eq_false_iff_ne.mpr (by omega)
          rw [some', Bool.false_and, Bool.or_false]
    · cases taken
  interrupts := by
    intro s s' bytes taken
    split at taken <;> cases taken
  fails := by
    intro s s' bytes taken
    split at taken <;> cases taken
    exact ⟨rfl, rfl⟩
  flushes := by rintro s s' ok ⟨⟩; exact ⟨rfl, rfl⟩

end Sink

end Iamf
