import Iamf.SequenceWriterSteps

/-! Whole histories of calls on the streaming writer, over sinks that may fail at any time. -/
namespace Iamf.Wire
open Bits BitString TapeCodec WriteTape

namespace SequenceWriter

variable {W : Sink}

def outcome (f : Push W) (w : SequenceWriter W) : Except Error Unit × SequenceWriter W :=
  match f w with
  | .ok () w' => (.ok (), w')
  | .error e w' => (.error e, w')

def answer (w : SequenceWriter W) (call : Call) : Except Error Unit × SequenceWriter W := outcome call.push w

def after (w : SequenceWriter W) : List Call → SequenceWriter W
  | [] => w
  | call :: calls => after (w.answer call).2 calls

def answers (w : SequenceWriter W) : List Call → List (Except Error Unit)
  | [] => []
  | call :: calls => (w.answer call).1 :: answers (w.answer call).2 calls

def accepted (w : SequenceWriter W) : List Call → List Call
  | [] => []
  | call :: calls =>
    match w.answer call with
    | (.ok (), w') => call :: accepted w' calls
    | (.error _, w') => accepted w' calls

def close (w : SequenceWriter W) (ended : Bool) : SequenceWriter W := if ended then (outcome finish w).2 else w

end SequenceWriter

def definitionsAfter (definitions : ParamDefinitionRegistry) (calls : List Call) : ParamDefinitionRegistry :=
  calls.foldl Call.definitionsBehind definitions

inductive Encodings : ParamDefinitionRegistry → List Call → Bytes → Prop where
  | nil {definitions} : Encodings definitions [] []
  | cons {definitions call calls a b} (head : call.Encodes definitions a)
      (tail : Encodings (call.definitionsBehind definitions) calls b) : Encodings definitions (call :: calls) (a ++ b)

theorem encodingsSnoc {definitions : ParamDefinitionRegistry} {calls : List Call} {call : Call} {a b : Bytes}
    (front : Encodings definitions calls a) (last : call.Encodes (definitionsAfter definitions calls) b) :
    Encodings definitions (calls ++ [call]) (a ++ b) := by
  induction front with
  | nil =>
    have one := Encodings.cons last .nil
    rwa [List.append_nil] at one
  | cons head _ ih =>
    rw [List.append_assoc]
    exact .cons head (ih last)

/-- One prologue, then units. -/
def Prologued (calls : List Call) : Prop :=
  ∃ (set : DescriptorSet) (units : List TemporalUnit), calls = .descriptors set :: units.map .temporalUnit

theorem prologuedSnoc {calls : List Call} {unit : TemporalUnit} (prologued : Prologued calls) :
    Prologued (calls ++ [.temporalUnit unit]) := by
  obtain ⟨set, units, rfl⟩ := prologued
  exact ⟨set, units ++ [unit], by simp⟩

namespace SequenceWriter

variable {W : Sink} {start : W.State}

/-- What a history that accepted `done` leaves. -/
inductive Reached (start : W.State) : SequenceWriter W → List Call → Prop where
  | intact {w done bytes} (encodings : Encodings .new done bytes) (held : W.held w.sink = W.held start ++ bytes)
      (count : w.bytesWritten = bytes.length) (unbroken : W.broken w.sink = false)
      (shape : done = [] ∧ w.state = .fresh ∨
        Prologued done ∧ w.state = .descriptorsWritten ∧ w.definitions = definitionsAfter .new done) :
      Reached start w done
  | poisoned {w done} (count : (W.held w.sink).length = (W.held start).length + w.bytesWritten)
      (broken : W.broken w.sink = true) (state : w.state = .poisoned) : Reached start w done

theorem newReached (sound : W.broken start = false) : Reached start (new start) [] :=
  .intact .nil (List.append_nil _).symm rfl sound (.inl ⟨rfl, rfl⟩)

theorem reachedCount {w : SequenceWriter W} {done : List Call} (reached : Reached start w done) :
    (W.held w.sink).length = (W.held start).length + w.bytesWritten := by
  cases reached with
  | intact encodings held count unbroken shape => rw [held, List.length_append, count]
  | poisoned count broken state => exact count

theorem reachedTurn {w : SequenceWriter W} {done : List Call} {call : Call} {whole : Bytes}
    (reached : Reached start w done) (turn : w.state = call.turn) (encodes : call.Encodes w.definitions whole) :
    ∃ bytes, Encodings .new done bytes ∧ W.held w.sink = W.held start ++ bytes ∧ w.bytesWritten = bytes.length ∧
      W.broken w.sink = false ∧ call.Encodes (definitionsAfter .new done) whole ∧ Prologued (done ++ [call]) ∧
      call.definitionsBehind w.definitions = definitionsAfter .new (done ++ [call]) := by
  cases reached with
  | poisoned count broken state =>
    rw [state] at turn
    cases call <;> cases turn
  | intact encodings held count unbroken shape =>
    refine ⟨_, encodings, held, count, unbroken, ?_⟩
    rcases shape with ⟨rfl, state⟩ | ⟨prologued, state, definitions⟩
    · rw [state] at turn
      cases call with
      | descriptors set => exact ⟨encodes, ⟨set, [], rfl⟩, rfl⟩
      | temporalUnit unit => cases turn
    · rw [state] at turn
      cases call with
      | descriptors set => cases turn
      | temporalUnit unit =>
        rw [definitions] at encodes ⊢
        refine ⟨encodes, prologuedSnoc prologued, ?_⟩
        simp only [definitionsAfter, List.foldl_append, List.foldl_cons, List.foldl_nil, Call.definitionsBehind]

def extend (done : List Call) (call : Call) : Except Error Unit → List Call
  | .ok () => done ++ [call]
  | .error _ => done

theorem answerReached {w : SequenceWriter W} {done : List Call} (call : Call) (reached : Reached start w done)
    (small : (W.held (w.answer call).2.sink).length ≤ (W.held start).length + u64Max) :
    Reached start (w.answer call).2 (extend done call (w.answer call).1) := by
  have step := pushed call w
  have whole := reachedCount reached
  unfold answer outcome at small ⊢
  cases ran : call.push w with
  | ok u w' =>
    rw [ran] at step
    simp only [ran] at small ⊢
    cases step with
    | accepted turn encodes held count state definitions unbroken =>
      obtain ⟨bytes, encodings, held', count', unbroken', encodes', prologued, behind⟩ := reachedTurn reached turn encodes
      refine .intact (encodingsSnoc encodings encodes') ?_ ?_ (unbroken.trans unbroken')
        (.inr ⟨prologued, state, definitions.trans behind⟩)
      · rw [held, held', List.append_assoc]
      · rw [count, count', List.length_append]
  | error e w' =>
    rw [ran] at step
    simp only [ran] at small ⊢
    cases step with
    | refused sink count state definitions poisoned cause =>
      cases reached with
      | intact encodings held count' unbroken shape =>
        refine .intact encodings (by rw [sink, held]) (count.trans count') (by rw [sink, unbroken]) ?_
        rcases shape with ⟨none, fresh⟩ | ⟨prologued, written, known⟩
        · exact .inl ⟨none, state.trans fresh⟩
        · refine .inr ⟨prologued, state.trans written, ?_⟩
          rcases definitions with fresh | same
          · rw [written] at fresh
            cases fresh
          · exact same.trans known
      | poisoned count' broken state' =>
        exact .poisoned (by rw [sink, count, count']) (by rw [sink, broken]) (state.trans state')
    | failed turn encodes inside held count state broken cause =>
      refine .poisoned ?_ broken state
      rw [held, List.length_append, List.length_take, Nat.min_eq_left inside, count, whole, Nat.add_assoc]
    | overflowed turn encodes inside held exceeded state =>
      rw [held, List.length_append, List.length_take, Nat.min_eq_left inside, whole] at small
      omega

theorem answerHeld (w : SequenceWriter W) (call : Call) :
    (W.held w.sink).length ≤ (W.held (w.answer call).2.sink).length := by
  have step := pushed call w
  unfold answer outcome
  generalize call.push w = r at step ⊢
  cases step with
  | refused sink => simp only [sink, Nat.le_refl]
  | accepted turn encodes held => simp only [held, List.length_append, Nat.le_add_right]
  | failed turn encodes inside held => simp only [held, List.length_append, Nat.le_add_right]
  | overflowed turn encodes inside held => simp only [held, List.length_append, Nat.le_add_right]

theorem afterHeld (w : SequenceWriter W) (calls : List Call) :
    (W.held w.sink).length ≤ (W.held (w.after calls).sink).length := by
  induction calls generalizing w with
  | nil => exact Nat.le_refl _
  | cons call calls ih => exact (answerHeld w call).trans (ih _)

theorem acceptedCons (w : SequenceWriter W) (call : Call) (calls done : List Call) :
    done ++ w.accepted (call :: calls) =
      extend done call (w.answer call).1 ++ (w.answer call).2.accepted calls := by
  simp only [accepted]
  rcases w.answer call with ⟨_ | ⟨⟩, w'⟩
  · rfl
  · simp [extend]

theorem afterReached {w : SequenceWriter W} {done calls : List Call} (reached : Reached start w done)
    (small : (W.held (w.after calls).sink).length ≤ (W.held start).length + u64Max) :
    Reached start (w.after calls) (done ++ w.accepted calls) := by
  induction calls generalizing w done with
  | nil =>
    rw [accepted, List.append_nil]
    exact reached
  | cons call calls ih =>
    rw [acceptedCons]
    have later := afterHeld (w.answer call).2 calls
    exact ih (answerReached call reached (later.trans small)) small

theorem afterAppend (w : SequenceWriter W) (xs ys : List Call) : w.after (xs ++ ys) = (w.after xs).after ys := by
  induction xs generalizing w with
  | nil => rfl
  | cons x xs ih => exact ih _

/-- Writers that no call tells apart: the scratch is cleared before use, and fresh writers take
their definitions from the descriptors to come. -/
structure Alike (w v : SequenceWriter W) : Prop where
  sink : v.sink = w.sink
  count : v.bytesWritten = w.bytesWritten
  state : v.state = w.state
  definitions : w.state = .fresh ∨ v.definitions = w.definitions

theorem alikeRefl (w : SequenceWriter W) : Alike w w := ⟨rfl, rfl, rfl, .inr rfl⟩

def Twins (w v : SequenceWriter W) : Prop := v = { w with scratch := v.scratch }

theorem twinsAlike {w v : SequenceWriter W} (twins : Twins w v) : Alike w v := by
  rw [twins]
  exact ⟨rfl, rfl, rfl, .inr rfl⟩

theorem alikeTwins {w v : SequenceWriter W} (alike : Alike w v) (later : w.state ≠ .fresh) : Twins w v := by
  obtain ⟨sink, count, state, definitions⟩ := alike
  obtain ⟨wSink, wState, wScratch, wDefinitions, wCount⟩ := w
  obtain ⟨vSink, vState, vScratch, vDefinitions, vCount⟩ := v
  cases sink
  cases count
  cases state
  cases definitions.resolve_left later
  rfl

def Blind {α : Type} (f : EStateM Error (SequenceWriter W) α) : Prop := ∀ w v, Twins w v →
  (∃ a w' v', f w = .ok a w' ∧ f v = .ok a v' ∧ Twins w' v') ∨
    ∃ e w' v', f w = .error e w' ∧ f v = .error e v' ∧ Twins w' v'

theorem blindPure : Blind (pure () : Push W) := fun w v twins => .inl ⟨(), w, v, rfl, rfl, twins⟩

theorem blindThrow (x : Except Error Unit) : Blind (orThrow x : Push W) := by
  intro w v twins
  cases x with
  | ok u => exact .inl ⟨u, w, v, rfl, rfl, twins⟩
  | error e => exact .inr ⟨e, w, v, rfl, rfl, twins⟩

theorem blindOfSame {f : Push W} (same : ∀ w v, Twins w v → f w = f v) : Blind f := by
  intro w v twins
  have equal := same w v twins
  cases ran : f v with
  | ok u v' => exact .inl ⟨u, v', v', equal.trans ran, rfl, rfl⟩
  | error e v' => exact .inr ⟨e, v', v', equal.trans ran, rfl, rfl⟩

theorem blindBind {α β : Type} {f : EStateM Error (SequenceWriter W) α} {k : α → EStateM Error (SequenceWriter W) β}
    (first : Blind f) (next : ∀ a, Blind (k a)) : Blind (f >>= k) := by
  intro w v twins
  rcases first w v twins with ⟨a, w', v', left, right, twins'⟩ | ⟨e, w', v', left, right, twins'⟩
  · rw [bindOf _ left, bindOf _ right]
    exact next a w' v' twins'
  · exact .inr ⟨e, w', v', bindError _ left, bindError _ right, twins'⟩

theorem blindEach {T : Type} {g : T → Push W} (each : ∀ v, Blind (g v)) (vs : List T) : Blind (writeEach g vs) := by
  induction vs with
  | nil => exact blindPure
  | cons v vs ih => exact blindBind (each v) fun _ => ih

theorem serializeSame (g : Writer Unit) (w v : SequenceWriter W) (twins : Twins w v) :
    serializeObu g w = serializeObu g v := by
  unfold serializeObu
  rw [bindOf _ (clearScratchOk w), bindOf _ (clearScratchOk v), twins]

theorem emitSame (g : Writer Unit) (w v : SequenceWriter W) (twins : Twins w v) :
    emitPreflightedObu g w = emitPreflightedObu g v := by
  have same := serializeSame g w v twins
  have both : emitObu g w = emitObu g v := by
    unfold emitObu
    cases ran : serializeObu g v with
    | ok u v' => rw [bindOf _ (same.trans ran), bindOf _ ran]
    | error e v' => rw [bindError _ (same.trans ran), bindError _ ran]
  simp only [emitPreflightedObu, both]

theorem blindDefinition (id : UInt32) : Blind (definitionFor id : EStateM Error (SequenceWriter W) _) := by
  intro w v twins
  have same : v.definitions = w.definitions := by rw [twins]
  unfold definitionFor
  rw [same]
  cases w.definitions.get id with
  | none => exact .inr ⟨_, w, v, rfl, rfl, twins⟩
  | some registered => exact .inl ⟨_, w, v, rfl, rfl, twins⟩

theorem blindUnit {act : Writer Unit → Push W} (same : ∀ g w v, Twins w v → act g w = act g v) (unit : TemporalUnit) :
    Blind (eachObu act unit) := by
  have blind (g : Writer Unit) : Blind (act g) := blindOfSame (same g)
  exact blindBind (blindEach (fun _ => blind _) _) fun _ =>
    blindBind (blindEach (fun _ => blindBind (blindDefinition _) fun _ => blind _) _) fun _ =>
      blindEach (fun _ => blind _) _

theorem outcomeBlind {f : Push W} (blind : Blind f) {w v : SequenceWriter W} (twins : Twins w v) :
    (outcome f v).1 = (outcome f w).1 ∧ Alike (outcome f w).2 (outcome f v).2 := by
  unfold outcome
  rcases blind w v twins with ⟨a, w', v', left, right, twins'⟩ | ⟨e, w', v', left, right, twins'⟩
  · rw [left, right]
    exact ⟨rfl, twinsAlike twins'⟩
  · rw [left, right]
    exact ⟨rfl, twinsAlike twins'⟩

theorem freshAlike (set : DescriptorSet) {w v : SequenceWriter W} (alike : Alike w v) (fresh : w.state = .fresh) :
    pushDescriptors set v = pushDescriptors set w := by
  obtain ⟨sink, count, state, _⟩ := alike
  obtain ⟨wSink, wState, wScratch, wDefinitions, wCount⟩ := w
  obtain ⟨vSink, vState, vScratch, vDefinitions, vCount⟩ := v
  cases sink
  cases count
  cases state
  cases fresh
  rfl

theorem blindPushUnit (unit : TemporalUnit) : Blind (pushTemporalUnit unit : Push W) := by
  intro w v twins
  have state : v.state = w.state := by rw [twins]
  have count : v.bytesWritten = w.bytesWritten := by rw [twins]
  unfold pushTemporalUnit poisonedError
  rw [state, count]
  cases w.state with
  | fresh => exact .inr ⟨_, w, v, rfl, rfl, twins⟩
  | poisoned => exact .inr ⟨_, w, v, rfl, rfl, twins⟩
  | descriptorsWritten =>
    have both : Blind (do preflightTemporalUnit unit; eachObu emitPreflightedObu unit : Push W) :=
      blindBind (blindBind (blindThrow _) fun _ => blindUnit serializeSame unit) fun _ => blindUnit emitSame unit
    exact both w v twins

theorem answerAlike {w v : SequenceWriter W} (alike : Alike w v) (call : Call) :
    (v.answer call).1 = (w.answer call).1 ∧ Alike (w.answer call).2 (v.answer call).2 := by
  have state := alike.state
  have count := alike.count
  have refused (e : Error) (left : call.push w = .error e w) (right : call.push v = .error e v) :
      (v.answer call).1 = (w.answer call).1 ∧ Alike (w.answer call).2 (v.answer call).2 := by
    unfold answer outcome
    rw [left, right]
    exact ⟨rfl, alike⟩
  cases turn : w.state with
  | fresh =>
    rw [turn] at state
    cases call with
    | descriptors set =>
      have same : v.answer (.descriptors set) = w.answer (.descriptors set) := by
        unfold answer outcome Call.push
        simp only [freshAlike set alike turn]
      rw [same]
      exact ⟨rfl, alikeRefl _⟩
    | temporalUnit unit =>
      refine refused ⟨.descriptorsNotWritten, .outputOffset w.bytesWritten⟩ ?_ ?_
      · simp only [Call.push, pushTemporalUnit, turn]
      · simp only [Call.push, pushTemporalUnit, state, count]
  | poisoned =>
    rw [turn] at state
    refine refused w.poisonedError ?_ ?_
    · cases call <;> simp only [Call.push, pushTemporalUnit, pushDescriptors, turn]
    · cases call <;> simp only [Call.push, pushTemporalUnit, pushDescriptors, state, poisonedError, count]
  | descriptorsWritten =>
    rw [turn] at state
    cases call with
    | descriptors set =>
      refine refused ⟨.descriptorsAlreadyWritten, .outputOffset w.bytesWritten⟩ ?_ ?_
      · simp only [Call.push, pushDescriptors, turn]
      · simp only [Call.push, pushDescriptors, state, count]
    | temporalUnit unit =>
      exact outcomeBlind (blindPushUnit unit) (alikeTwins alike (by rw [turn]; nofun))

theorem answersAlike {w v : SequenceWriter W} (alike : Alike w v) (calls : List Call) :
    v.answers calls = w.answers calls ∧ Alike (w.after calls) (v.after calls) := by
  induction calls generalizing w v with
  | nil => exact ⟨rfl, alike⟩
  | cons call calls ih =>
    obtain ⟨same, alike'⟩ := answerAlike alike call
    obtain ⟨others, last⟩ := ih alike'
    exact ⟨by rw [answers, answers, same, others], last⟩

theorem finishAlike {w v : SequenceWriter W} (alike : Alike w v) :
    (outcome finish v).1 = (outcome finish w).1 ∧ (outcome finish v).2.sink = (outcome finish w).2.sink := by
  obtain ⟨sink, count, state, _⟩ := alike
  unfold outcome finish poisonedError
  rw [sink, count, state]
  by_cases poisoned : w.state = .poisoned
  · simp only [poisoned, if_true]
    exact ⟨trivial, sink⟩
  · simp only [poisoned, if_false]
    rcases W.flush w.sink with ⟨_ | _, sink'⟩ <;> exact ⟨rfl, rfl⟩

theorem finishHeld (w : SequenceWriter W) : W.held (outcome finish w).2.sink = W.held w.sink ∧
    (outcome finish w).2.bytesWritten = w.bytesWritten ∧
    W.broken (outcome finish w).2.sink = W.broken w.sink := by
  unfold outcome finish
  by_cases poisoned : w.state = .poisoned
  · simp only [poisoned, if_true, and_self]
  · simp only [poisoned, if_false]
    rcases flush : W.flush w.sink with ⟨_ | _, sink'⟩
    · exact ⟨(W.flushes flush).1, rfl, (W.flushes flush).2⟩
    · exact ⟨(W.flushes flush).1, rfl, (W.flushes flush).2⟩

theorem poisonedAnswer {w : SequenceWriter W} (state : w.state = .poisoned) (call : Call) :
    w.answer call = (.error w.poisonedError, w) := by
  cases call <;> simp only [answer, outcome, Call.push, pushDescriptors, pushTemporalUnit, state]

theorem poisonedStays {w : SequenceWriter W} (state : w.state = .poisoned) (calls : List Call) :
    w.after calls = w ∧ ∀ reply ∈ w.answers calls, reply = .error w.poisonedError := by
  induction calls with
  | nil => exact ⟨rfl, by simp [answers]⟩
  | cons call calls ih =>
    simp only [after, answers, poisonedAnswer state, List.mem_cons, forall_eq_or_imp, true_and]
    exact ih

theorem poisonedFinish {w : SequenceWriter W} (state : w.state = .poisoned) :
    outcome finish w = (.error w.poisonedError, w) := by
  simp only [outcome, finish, state, if_true]

theorem closeOpen (w : SequenceWriter W) : w.close false = w := rfl

theorem closeHeld (w : SequenceWriter W) (ended : Bool) : W.held (w.close ended).sink = W.held w.sink ∧
    (w.close ended).bytesWritten = w.bytesWritten ∧ W.broken (w.close ended).sink = W.broken w.sink := by
  cases ended with
  | false => exact ⟨rfl, rfl, rfl⟩
  | true => exact finishHeld w

theorem beforeReached {before later : List Call} {call : Call} (sound : W.broken start = false)
    (small : (W.held ((new start).after (before ++ call :: later)).sink).length ≤ (W.held start).length + u64Max) :
    Reached start ((new start).after before) ((new start).accepted before) ∧
      (W.held (((new start).after before).answer call).2.sink).length ≤ (W.held start).length + u64Max := by
  rw [afterAppend] at small
  have step := (afterHeld (((new start).after before).answer call).2 later).trans small
  have first := (answerHeld ((new start).after before) call).trans step
  exact ⟨afterReached (newReached sound) first, step⟩

theorem refusedAlike {w w' : SequenceWriter W} {done : List Call} {call : Call} {e : Error}
    (reached : Reached start w done) (small : (W.held w'.sink).length ≤ (W.held start).length + u64Max)
    (failed : w.answer call = (.error e, w')) (unbroken : W.broken w'.sink = W.broken w.sink) : Alike w w' := by
  have step := pushed call w
  unfold answer outcome at failed
  cases ran : call.push w with
  | ok u w'' => rw [ran] at failed; cases failed
  | error e' w'' =>
    rw [ran] at failed step
    cases failed
    cases step with
    | refused sink count state definitions poisoned cause => exact ⟨sink, count, state, definitions⟩
    | failed turn encodes inside held count state broken cause =>
      obtain ⟨_, _, _, _, before, _⟩ := reachedTurn reached turn encodes
      rw [broken, before] at unbroken
      cases unbroken
    | overflowed turn encodes inside held exceeded state =>
      rw [held, List.length_append, List.length_take, Nat.min_eq_left inside, reachedCount reached] at small
      omega

theorem brokenAnswer {w w' : SequenceWriter W} {done : List Call} {call : Call} {reply : Except Error Unit}
    (reached : Reached start w done) (small : (W.held w'.sink).length ≤ (W.held start).length + u64Max)
    (answered : w.answer call = (reply, w')) (unbroken : W.broken w.sink = false) (broken : W.broken w'.sink = true) :
    (∃ e, reply = .error e) ∧ w'.state = .poisoned ∧ ∃ bytes whole n, Encodings .new done bytes ∧
      call.Encodes (definitionsAfter .new done) whole ∧ n ≤ whole.length ∧
      W.held w'.sink = W.held start ++ bytes ++ whole.take n := by
  have step := pushed call w
  unfold answer outcome at answered
  cases ran : call.push w with
  | ok u w'' =>
    rw [ran] at answered step
    cases answered
    cases step with
    | accepted turn encodes held count state definitions same =>
      rw [same, unbroken] at broken
      cases broken
  | error e' w'' =>
    rw [ran] at answered step
    cases answered
    refine ⟨⟨e', rfl⟩, ?_⟩
    cases step with
    | refused sink =>
      rw [sink, unbroken] at broken
      cases broken
    | @failed _ _ whole n turn encodes inside held count state broken cause =>
      obtain ⟨bytes, encodings, held', _, _, encodes', _⟩ := reachedTurn reached turn encodes
      exact ⟨state, bytes, whole, n, encodings, encodes', inside, by rw [held, held']⟩
    | overflowed turn encodes inside held exceeded state =>
      rw [held, List.length_append, List.length_take, Nat.min_eq_left inside, reachedCount reached] at small
      omega

theorem faultySinkRuns (sound : W.broken start = false) {calls : List Call}
    (total : (W.held ((new start).after calls).sink).length < (W.held start).length + 2 ^ 64) :
    (∀ ended, (W.held (((new start).after calls).close ended).sink).length =
      (W.held start).length + (((new start).after calls).close ended).bytesWritten) ∧
    (∀ ended, W.broken (((new start).after calls).close ended).sink = false →
      ((new start).accepted calls = [] ∨ Prologued ((new start).accepted calls)) ∧
      ∃ bytes, Encodings .new ((new start).accepted calls) bytes ∧
        W.held (((new start).after calls).close ended).sink = W.held start ++ bytes) ∧
    (∀ before call later w w' e, calls = before ++ call :: later → w = (new start).after before →
      w.answer call = (.error e, w') → W.broken w'.sink = W.broken w.sink →
      w'.sink = w.sink ∧ w'.bytesWritten = w.bytesWritten ∧ w'.answers later = w.answers later ∧
      (w'.after later).sink = (w.after later).sink ∧ (w'.after later).bytesWritten = (w.after later).bytesWritten ∧
      (outcome finish (w'.after later)).1 = (outcome finish (w.after later)).1) ∧
    (∀ before call later w w' reply, calls = before ++ call :: later → w = (new start).after before →
      w.answer call = (reply, w') → W.broken w.sink = false → W.broken w'.sink = true →
      (∃ e, reply = .error e) ∧ (∀ reply ∈ w'.answers later, reply = .error w'.poisonedError) ∧
      (outcome finish (w'.after later)).1 = .error w'.poisonedError ∧
      (∀ ended, W.held ((w'.after later).close ended).sink = W.held w'.sink) ∧
      ∃ bytes whole n, Encodings .new ((new start).accepted before) bytes ∧
        call.Encodes (definitionsAfter .new ((new start).accepted before)) whole ∧ n ≤ whole.length ∧
        W.held w'.sink = W.held start ++ bytes ++ whole.take n) := by
  have small : (W.held ((new start).after calls).sink).length ≤ (W.held start).length + u64Max := by
    simp only [u64Max]
    omega
  have reached := afterReached (newReached sound) small
  rw [List.nil_append] at reached
  refine ⟨fun ended => ?_, fun ended unbroken => ?_, ?_, ?_⟩
  · obtain ⟨held, count, _⟩ := closeHeld ((new start).after calls) ended
    rw [held, count]
    exact reachedCount reached
  · obtain ⟨held, _, same⟩ := closeHeld ((new start).after calls) ended
    rw [same] at unbroken
    rw [held]
    cases reached with
    | intact encodings whole count _ shape => exact ⟨shape.imp And.left And.left, _, encodings, whole⟩
    | poisoned count broken state =>
      rw [broken] at unbroken
      cases unbroken
  · rintro before call later w w' e rfl rfl failed unbroken
    obtain ⟨reached, step⟩ := beforeReached sound small
    rw [failed] at step
    have alike := refusedAlike reached step failed unbroken
    obtain ⟨answers, behind⟩ := answersAlike alike later
    exact ⟨alike.sink, alike.count, answers, behind.sink, behind.count, (finishAlike behind).1⟩
  · rintro before call later w w' reply rfl rfl answered unbroken broken
    obtain ⟨reached, step⟩ := beforeReached sound small
    rw [answered] at step
    obtain ⟨refused, state, parts⟩ := brokenAnswer reached step answered unbroken broken
    obtain ⟨stays, replies⟩ := poisonedStays state later
    refine ⟨refused, replies, ?_, fun ended => ?_, parts⟩
    · rw [stays, poisonedFinish state]
    · rw [(closeHeld _ ended).1, stays]

theorem faultySinkRunsLimited :
    ((@new (Sink.limited 3) ([], false)).after [.descriptors ⟨.new 0 0, [], [], []⟩, .temporalUnit ⟨none, [], []⟩]).bytesWritten
        = 3 ∧
      ∃ bytes whole n, Encodings .new [] bytes ∧
        (Call.descriptors ⟨.new 0 0, [], [], []⟩).Encodes .new whole ∧ n ≤ whole.length ∧
        [0xf8, 0x06, 0x69] = bytes ++ whole.take n := by
  have laws := @faultySinkRuns (Sink.limited 3) ([], false) rfl
    [.descriptors ⟨.new 0 0, [], [], []⟩, .temporalUnit ⟨none, [], []⟩] (by decide +kernel)
  have room : ((Sink.limited 3).held ([], false)).length = 0 := rfl
  constructor
  · have count := laws.1 false
    have held : ((Sink.limited 3).held ((@new (Sink.limited 3) ([], false)).after
        [.descriptors ⟨.new 0 0, [], [], []⟩, .temporalUnit ⟨none, [], []⟩]).sink).length = 3 := by
      decide +kernel
    rw [closeOpen, held, room, Nat.zero_add] at count
    exact count.symm
  · rcases answered : (@new (Sink.limited 3) ([], false)).answer (.descriptors ⟨.new 0 0, [], [], []⟩) with ⟨reply, w'⟩
    have broken : (Sink.limited 3).broken ((@new (Sink.limited 3) ([], false)).answer
        (.descriptors ⟨.new 0 0, [], [], []⟩)).2.sink = true := by decide +kernel
    have held : (Sink.limited 3).held ((@new (Sink.limited 3) ([], false)).answer
        (.descriptors ⟨.new 0 0, [], [], []⟩)).2.sink = [0xf8, 0x06, 0x69] := by decide +kernel
    rw [answered] at broken held
    obtain ⟨_, _, _, _, bytes, whole, n, encodings, encodes, inside, parts⟩ :=
      laws.2.2.2 [] _ _ _ w' reply rfl rfl answered rfl broken
    exact ⟨bytes, whole, n, encodings, encodes, inside, held.symm.trans parts⟩

end SequenceWriter

end Iamf.Wire
