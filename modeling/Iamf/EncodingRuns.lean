import Iamf.EncodingWriter

/-! What a run of an encoder keeps: only the accepted units, what they lower to, and their bytes.
Whether one more unit is accepted depends on nothing else. -/
namespace Iamf.Wire
open Bits BitString TapeCodec WriteTape

namespace SequenceWriter

variable {W : Sink} {α β : Type}

def Within (f : EStateM Error (SequenceWriter W) α) : Prop :=
  ∀ w a w', w.bytesWritten ≤ u64Max → f w = .ok a w' → w'.bytesWritten ≤ u64Max

theorem withinOf {f : EStateM Error (SequenceWriter W) α}
    (same : ∀ w a w', f w = .ok a w' → w'.bytesWritten = w.bytesWritten) : Within f := by
  intro w a w' small ran
  rw [same w a w' ran]
  exact small

theorem withinBind {f : EStateM Error (SequenceWriter W) α} {k : α → EStateM Error (SequenceWriter W) β}
    (first : Within f) (next : ∀ a, Within (k a)) : Within (f >>= k) := by
  intro w b w' small ran
  obtain ⟨a, v, head, tail⟩ := bindOk ran
  exact next a v b w' (first w a v small head) tail

theorem withinEach {T : Type} {g : T → Push W} (each : ∀ v, Within (g v)) (vs : List T) : Within (writeEach g vs) := by
  induction vs with
  | nil => exact withinOf fun w a w' ran => by cases ran; rfl
  | cons v vs ih => exact withinBind (each v) fun _ => ih

theorem withinFlush (bytes : Bytes) : Within (flushFrom bytes : Push W) := by
  intro w u w' small ran
  induction size : bytes.length using Nat.strong_induction_on generalizing bytes w with
  | _ size' ih =>
    unfold flushFrom at ran
    split at ran
    · cases ran
      exact small
    · rename_i more
      have positive := List.length_pos_iff.mpr more
      split at ran
      · rename_i n sink offered
        split at ran
        · cases ran
        · rename_i inside
          exact ih (bytes.drop (n + 1)).length (by rw [List.length_drop]; omega) _ _ (Nat.le_of_not_gt inside) ran rfl
      · cases ran

theorem withinScratch (g : Writer Unit) : Within (inScratch g : Push W) := by
  refine withinOf fun w a w' ran => ?_
  unfold inScratch at ran
  cases wrote : g w.scratch with
  | ok u scratch =>
    rw [wrote] at ran
    cases ran
    rfl
  | error e scratch =>
    rw [wrote] at ran
    cases ran

theorem withinClear : Within (clearScratch : Push W) := withinOf fun w a w' ran => by cases ran; rfl

theorem withinSerialize (g : Writer Unit) : Within (serializeObu g : Push W) :=
  withinBind withinClear fun _ => withinScratch g

theorem withinFlushScratch : Within (flushScratch : Push W) := by
  intro w u w' small ran
  unfold flushScratch at ran
  cases octets : w.scratch.asBytes with
  | error e =>
    rw [octets] at ran
    cases ran
  | ok bytes =>
    rw [octets] at ran
    exact withinFlush bytes w u w' small ran

theorem withinEmit (g : Writer Unit) : Within (emitPreflightedObu g : Push W) := by
  have inner : Within (emitObu g : Push W) := withinBind (withinSerialize g) fun _ => withinFlushScratch
  intro w u w' small ran
  unfold emitPreflightedObu at ran
  cases sent : emitObu g w with
  | ok u v =>
    rw [sent] at ran
    cases ran
    exact inner w () w' small sent
  | error e v =>
    rw [sent] at ran
    cases ran

theorem withinThrow (x : Except Error Unit) : Within (orThrow x : Push W) :=
  withinOf fun w a w' ran => by rw [(orThrowOk ran).2]

theorem withinDefinition (id : UInt32) : Within (definitionFor id : EStateM Error (SequenceWriter W) _) := by
  refine withinOf fun w a w' ran => ?_
  unfold definitionFor at ran
  cases found : w.definitions.get id with
  | none =>
    rw [found] at ran
    cases ran
  | some registered =>
    rw [found] at ran
    cases ran
    rfl

theorem withinUnit {act : Writer Unit → Push W} (each : ∀ g, Within (act g)) (unit : TemporalUnit) :
    Within (eachObu act unit) :=
  withinBind (withinEach (fun _ => each _) _) fun _ =>
    withinBind (withinEach (fun _ => withinBind (withinDefinition _) fun _ => each _) _) fun _ =>
      withinEach (fun _ => each _) _

theorem withinPush (unit : TemporalUnit) : Within (pushTemporalUnit unit : Push W) := by
  intro w u w' small ran
  unfold pushTemporalUnit at ran
  cases turn : w.state with
  | fresh =>
    rw [turn] at ran
    cases ran
  | poisoned =>
    rw [turn] at ran
    cases ran
  | descriptorsWritten =>
    rw [turn] at ran
    have both : Within (do preflightTemporalUnit unit; eachObu emitPreflightedObu unit : Push W) :=
      withinBind (withinBind (withinThrow _) fun _ => withinUnit withinSerialize unit) fun _ => withinUnit withinEmit unit
    exact both w u w' small ran

theorem withinDescriptors (set : DescriptorSet) : Within (pushDescriptors set : Push W) := by
  intro w u w' small ran
  unfold pushDescriptors at ran
  cases turn : w.state with
  | descriptorsWritten =>
    rw [turn] at ran
    cases ran
  | poisoned =>
    rw [turn] at ran
    cases ran
  | fresh =>
    rw [turn] at ran
    have all : Within (do
        modify fun w => { w with definitions := .fromDescriptors set }
        clearScratch
        inScratch (writeDescriptors set)
        flushScratch
        modify fun w => { w with state := .descriptorsWritten } : Push W) :=
      withinBind (withinOf fun w a w' ran => by cases ran; rfl) fun _ => withinBind withinClear fun _ =>
        withinBind (withinScratch _) fun _ => withinBind withinFlushScratch fun _ =>
          withinOf fun w a w' ran => by cases ran; rfl
    exact all w u w' small ran

end SequenceWriter

theorem encodesUnique {definitions : ParamDefinitionRegistry} {call : Call} {a b : Bytes}
    (left : call.Encodes definitions a) (right : call.Encodes definitions b) : a = b := by
  cases call with
  | descriptors set => exact Except.ok.inj (left.symm.trans right)
  | temporalUnit unit => exact Except.ok.inj (left.2.symm.trans right.2)

namespace Encoder

inductive Lowers (encoder : Encoder) :
    TemporalProgress → List TemporalUnitInput → List TemporalUnit → TemporalProgress → Prop where
  | nil {progress} : Lowers encoder progress [] [] progress
  | cons {progress input inputs unit units next last}
      (head : encoder.preflight progress input = .ok (unit, next)) (tail : Lowers encoder next inputs units last) :
      Lowers encoder progress (input :: inputs) (unit :: units) last

inductive UnitBytes (definitions : ParamDefinitionRegistry) : List TemporalUnit → Bytes → Prop where
  | nil : UnitBytes definitions [] []
  | cons {unit units a b} (head : (Call.temporalUnit unit).Encodes definitions a) (tail : UnitBytes definitions units b) :
      UnitBytes definitions (unit :: units) (a ++ b)

/-- The units an encoder accepts on a sink that takes everything: the checks pass, what they are
lowered to can be written, and the byte counter holds it. -/
structure Sends (encoder : Encoder) (inputs : List TemporalUnitInput) (units : List TemporalUnit)
    (progress : TemporalProgress) (prologue bytes : Bytes) : Prop where
  lowers : encoder.Lowers .initial inputs units progress
  descriptors : finishWriter (writeDescriptors encoder.descriptors) = .ok prologue
  encodes : UnitBytes (.fromDescriptors encoder.descriptors) units bytes
  counted : prologue.length + bytes.length ≤ u64Max

def Accepts (encoder : Encoder) (inputs : List TemporalUnitInput) : Prop :=
  ∃ units progress prologue bytes, encoder.Sends inputs units progress prologue bytes

variable {encoder : Encoder}

theorem lowersSnoc {progress middle last : TemporalProgress} {inputs : List TemporalUnitInput} {input : TemporalUnitInput}
    {units : List TemporalUnit} {unit : TemporalUnit} (front : encoder.Lowers progress inputs units middle)
    (end' : encoder.preflight middle input = .ok (unit, last)) :
    encoder.Lowers progress (inputs ++ [input]) (units ++ [unit]) last := by
  induction front with
  | nil => exact .cons end' .nil
  | cons head _ ih => exact .cons head (ih end')

theorem lowersAppend {progress last : TemporalProgress} {xs ys : List TemporalUnitInput} {units : List TemporalUnit}
    (lowers : encoder.Lowers progress (xs ++ ys) units last) : ∃ us vs middle, units = us ++ vs ∧
      encoder.Lowers progress xs us middle ∧ encoder.Lowers middle ys vs last := by
  induction xs generalizing progress units with
  | nil => exact ⟨[], units, progress, rfl, .nil, lowers⟩
  | cons x xs ih =>
    cases lowers with
    | cons head tail =>
      obtain ⟨us, vs, middle, rfl, front, back⟩ := ih tail
      exact ⟨_ :: us, vs, middle, rfl, .cons head front, back⟩

theorem lowersUnique {progress last last' : TemporalProgress} {inputs : List TemporalUnitInput}
    {units units' : List TemporalUnit} (left : encoder.Lowers progress inputs units last)
    (right : encoder.Lowers progress inputs units' last') : units' = units ∧ last' = last := by
  induction left generalizing units' with
  | nil => cases right; exact ⟨rfl, rfl⟩
  | cons head tail ih =>
    cases right with
    | cons head' tail' =>
      cases head.symm.trans head'
      obtain ⟨rfl, rfl⟩ := ih tail'
      exact ⟨rfl, rfl⟩

theorem lowersEach {progress last : TemporalProgress} {inputs : List TemporalUnitInput} {units : List TemporalUnit}
    (lowers : encoder.Lowers progress inputs units last) : ∀ pair ∈ inputs.zip units, ∃ before next,
      encoder.preflight before pair.1 = .ok (pair.2, next) := by
  induction lowers with
  | nil => nofun
  | cons head tail ih =>
    rw [List.zip_cons_cons, List.forall_mem_cons]
    exact ⟨⟨_, _, head⟩, ih⟩

variable {definitions : ParamDefinitionRegistry}

theorem unitBytesAppend {us vs : List TemporalUnit} {bytes : Bytes} : UnitBytes definitions (us ++ vs) bytes ↔
    ∃ a b, bytes = a ++ b ∧ UnitBytes definitions us a ∧ UnitBytes definitions vs b := by
  induction us generalizing bytes with
  | nil =>
    constructor
    · exact fun all => ⟨[], bytes, rfl, .nil, all⟩
    · rintro ⟨a, b, rfl, empty, all⟩
      cases empty
      exact all
  | cons u us ih =>
    constructor
    · intro all
      cases all with
      | cons head tail =>
        obtain ⟨a, b, rfl, front, back⟩ := ih.mp tail
        exact ⟨_, b, (List.append_assoc _ _ _).symm, .cons head front, back⟩
    · rintro ⟨a, b, rfl, front, back⟩
      cases front with
      | cons head tail =>
        rw [List.append_assoc]
        exact .cons head (ih.mpr ⟨_, b, rfl, tail, back⟩)

theorem unitBytesUnique {units : List TemporalUnit} {a b : Bytes} (left : UnitBytes definitions units a)
    (right : UnitBytes definitions units b) : a = b := by
  induction left generalizing b with
  | nil => cases right; rfl
  | cons head tail ih =>
    cases right with
    | cons head' tail' => rw [encodesUnique head head', ih tail']

theorem sendsUnique {inputs : List TemporalUnitInput} {units units' : List TemporalUnit}
    {progress progress' : TemporalProgress} {prologue prologue' bytes bytes' : Bytes}
    (left : encoder.Sends inputs units progress prologue bytes)
    (right : encoder.Sends inputs units' progress' prologue' bytes') :
    units' = units ∧ progress' = progress ∧ prologue' = prologue ∧ bytes' = bytes := by
  obtain ⟨rfl, rfl⟩ := lowersUnique left.lowers right.lowers
  exact ⟨rfl, rfl, Except.ok.inj (right.descriptors.symm.trans left.descriptors), unitBytesUnique right.encodes left.encodes⟩

theorem acceptsFront {xs ys : List TemporalUnitInput} (accepts : encoder.Accepts (xs ++ ys)) : encoder.Accepts xs := by
  obtain ⟨units, progress, prologue, bytes, sends⟩ := accepts
  obtain ⟨us, vs, middle, rfl, front, back⟩ := lowersAppend sends.lowers
  obtain ⟨a, b, rfl, encodes, _⟩ := unitBytesAppend.mp sends.encodes
  have counted := sends.counted
  rw [List.length_append] at counted
  exact ⟨us, middle, prologue, a, front, sends.descriptors, encodes, by omega⟩

end Encoder

def Encoder.startedWith {W : Sink} (encoder : Encoder) (start : W.State) (holds : EncodingWriter W → Bool) : Bool :=
  match encoder.start start with
  | .ok w _ => holds w
  | .error _ _ => false

theorem Encoder.startedOf {W : Sink} {encoder : Encoder} {start : W.State} {holds : EncodingWriter W → Bool}
    (started : encoder.startedWith start holds = true) : ∃ w s, encoder.start start = .ok w s ∧ holds w = true := by
  unfold startedWith at started
  cases ran : encoder.start start with
  | error e s =>
    rw [ran] at started
    cases started
  | ok w s =>
    rw [ran] at started
    exact ⟨w, s, rfl, started⟩

namespace EncodingWriter

variable {W : Sink} {start : W.State} {encoder : Encoder} {inputs : List TemporalUnitInput}

structure Sent (start : W.State) (encoder : Encoder) (inputs : List TemporalUnitInput) (w : EncodingWriter W) : Prop where
  same : w.encoder = encoder
  sends : ∃ units prologue bytes, encoder.Sends inputs units w.progress prologue bytes ∧
    W.held w.sequence.sink = W.held start ++ (prologue ++ bytes) ∧
    w.sequence.bytesWritten = prologue.length + bytes.length
  state : w.sequence.state = .descriptorsWritten
  definitions : w.sequence.definitions = .fromDescriptors encoder.descriptors

theorem Sent.unbroken {w : EncodingWriter W} {inputs : List TemporalUnitInput} (sent : Sent start encoder inputs w) :
    w.sequence.state ≠ .poisoned := by
  rw [sent.state]
  nofun

/-- One push behind such a run. A refused unit fails a check or cannot be written; else only the byte
counter breaks the writer, and then the sink holds more than the counter can. -/
inductive Answered (w : EncodingWriter W) (start : W.State) (encoder : Encoder) (inputs : List TemporalUnitInput)
    (input : TemporalUnitInput) : Except Error Unit × EncodingWriter W → Prop where
  | accepted {w'} (sent : Sent start encoder (inputs ++ [input]) w') : Answered w start encoder inputs input (.ok (), w')
  | refused {e w'} (sent : Sent start encoder inputs w')
      (cause : ∀ unit next whole, encoder.preflight w.progress input = .ok (unit, next) →
        ¬ (Call.temporalUnit unit).Encodes (.fromDescriptors encoder.descriptors) whole) :
      Answered w start encoder inputs input (.error e, w')
  | exceeded {e w'} (poisoned : w'.sequence.state = .poisoned)
      (long : (W.held start).length + u64Max < (W.held w'.sequence.sink).length)
      (never : ¬ encoder.Accepts (inputs ++ [input])) : Answered w start encoder inputs input (.error e, w')

theorem sendsSnoc {input : TemporalUnitInput} {units us : List TemporalUnit} {progress last : TemporalProgress}
    {prologue bytes prologue' bytes' : Bytes} (before : encoder.Sends inputs units progress prologue bytes)
    (behind : encoder.Sends (inputs ++ [input]) us last prologue' bytes') :
    ∃ unit whole, encoder.preflight progress input = .ok (unit, last) ∧
      (Call.temporalUnit unit).Encodes (.fromDescriptors encoder.descriptors) whole ∧
      prologue.length + bytes.length + whole.length ≤ u64Max := by
  obtain ⟨front, back, middle, rfl, early, late⟩ := Encoder.lowersAppend behind.lowers
  obtain ⟨rfl, rfl⟩ := Encoder.lowersUnique before.lowers early
  cases late with
  | cons head tail =>
  cases tail
  obtain ⟨a, b, rfl, encodes, encodes'⟩ := Encoder.unitBytesAppend.mp behind.encodes
  cases encodes' with
  | @cons _ _ whole rest one none =>
  cases none
  have counted := behind.counted
  cases Encoder.unitBytesUnique before.encodes encodes
  cases before.descriptors.symm.trans behind.descriptors
  rw [List.append_nil, List.length_append] at counted
  exact ⟨_, whole, head, one, by omega⟩

theorem sentStays {w : EncodingWriter W} (sent : Sent start encoder inputs w) {sequence : SequenceWriter W}
    (sink : sequence.sink = w.sequence.sink) (count : sequence.bytesWritten = w.sequence.bytesWritten)
    (state : sequence.state = w.sequence.state)
    (definitions : w.sequence.state = .fresh ∨ sequence.definitions = w.sequence.definitions) :
    Sent start encoder inputs { w with sequence := sequence } := by
  obtain ⟨same, ⟨units, prologue, bytes, sends, held, count'⟩, state', definitions'⟩ := sent
  rw [state'] at definitions
  exact ⟨same, ⟨units, prologue, bytes, sends, (congrArg W.held sink).trans held, count.trans count'⟩, state.trans state',
    (definitions.resolve_left nofun).trans definitions'⟩

theorem sentBehind {w : EncodingWriter W} (sent : Sent start encoder inputs w) {input : TemporalUnitInput}
    {unit : TemporalUnit} {next : TemporalProgress} {sequence : SequenceWriter W}
    (checked : encoder.preflight w.progress input = .ok (unit, next))
    (ran : SequenceWriter.pushTemporalUnit unit w.sequence = .ok () sequence) :
    Sent start encoder (inputs ++ [input]) { w with sequence := sequence, progress := next } := by
  obtain ⟨same, ⟨units, prologue, bytes, sends, held, count⟩, state, definitions⟩ := sent
  have call := SequenceWriter.pushUnitPushed unit w.sequence
  have within := SequenceWriter.withinPush unit w.sequence () sequence (by rw [count]; exact sends.counted) ran
  rw [ran] at call
  cases call with
  | @accepted _ whole turn encodes held' count' state' definitions' unbroken =>
    rw [definitions] at encodes
    refine ⟨same, ⟨units ++ [unit], prologue, bytes ++ whole, ?_, ?_, ?_⟩, state', definitions'.trans definitions⟩
    · refine ⟨Encoder.lowersSnoc sends.lowers checked, sends.descriptors, ?_, ?_⟩
      · refine Encoder.unitBytesAppend.mpr ⟨bytes, whole, rfl, sends.encodes, ?_⟩
        rw [← List.append_nil whole]
        exact .cons encodes .nil
      · rw [List.length_append]
        omega
    · rw [held', held]
      simp only [List.append_assoc]
    · rw [count', count, List.length_append, Nat.add_assoc]

theorem pushSent (all : W.AcceptsAll) {w : EncodingWriter W} (sent : Sent start encoder inputs w)
    (input : TemporalUnitInput) : Answered w start encoder inputs input (outcome (pushTemporalUnit input) w) := by
  have before := sent
  obtain ⟨same, ⟨units, prologue, bytes, sends, held, count⟩, state, definitions⟩ := sent
  have push := outcomePushed w input
  generalize outcome (pushTemporalUnit input) w = r at push ⊢
  cases push with
  | stopped poisoned =>
    rw [state] at poisoned
    cases poisoned
  | refused sound checked =>
    refine .refused before fun unit next whole passed => ?_
    rw [same] at checked
    cases checked.symm.trans passed
  | @failed unit next e sequence sound checked ran =>
    have call := SequenceWriter.pushUnitPushed unit w.sequence
    rw [ran] at call
    rw [same] at checked
    cases call with
    | refused sink count' state' definitions' poisoned cause =>
      refine .refused (sentStays before sink count' state' definitions') fun unit' next' whole passed encodes => ?_
      cases checked.symm.trans passed
      rw [← definitions] at encodes
      exact cause state _ encodes
    | failed turn encodes inside held' count' state' broken cause => exact (cause all).elim
    | @overflowed _ _ whole n turn encodes inside held' exceeded state' =>
      refine .exceeded state' ?_ ?_
      · have length := congrArg List.length held
        have length' := congrArg List.length held'
        rw [List.length_append, List.length_append] at length
        rw [List.length_append, List.length_take, Nat.min_eq_left inside] at length'
        rw [length', length]
        omega
      · intro accepts
        obtain ⟨us, last, p, b, more⟩ := accepts
        obtain ⟨unit', whole', passed, encodes', counted⟩ := sendsSnoc sends more
        cases checked.symm.trans passed
        rw [definitions] at encodes
        cases encodesUnique encodes encodes'
        omega
  | accepted sound checked ran =>
    rw [same] at checked
    exact .accepted (sentBehind before checked ran)

theorem refusedNever {w : EncodingWriter W} {input : TemporalUnitInput} (sent : Sent start encoder inputs w)
    (cause : ∀ unit next whole, encoder.preflight w.progress input = .ok (unit, next) →
      ¬ (Call.temporalUnit unit).Encodes (.fromDescriptors encoder.descriptors) whole) :
    ¬ encoder.Accepts (inputs ++ [input]) := by
  intro accepts
  obtain ⟨us, last, p, b, more⟩ := accepts
  obtain ⟨_, ⟨units, prologue, bytes, sends, _⟩, _⟩ := sent
  obtain ⟨unit, whole, passed, encodes, _⟩ := sendsSnoc sends more
  exact cause unit last whole passed encodes

theorem startSent {w : EncodingWriter W} {s : SequenceWriter W} (started : encoder.start start = .ok w s) :
    Sent start encoder [] w := by
  have pushed := SequenceWriter.pushDescriptorsPushed encoder.descriptors (SequenceWriter.new start : SequenceWriter W)
  have within := SequenceWriter.withinDescriptors encoder.descriptors (SequenceWriter.new start : SequenceWriter W) ()
  unfold Encoder.start at started
  cases ran : SequenceWriter.pushDescriptors encoder.descriptors (SequenceWriter.new start) with
  | error e sequence =>
    rw [ran] at started
    cases started
  | ok u sequence =>
    rw [ran] at started pushed
    cases started
    cases pushed with
    | @accepted _ prologue turn encodes held count state definitions unbroken =>
      have none : (SequenceWriter.new start : SequenceWriter W).bytesWritten = 0 := rfl
      rw [none, Nat.zero_add] at count
      have small := within s (Nat.zero_le _) ran
      refine ⟨rfl, ⟨[], prologue, [], ⟨.nil, encodes, .nil, ?_⟩, ?_, count⟩, state, definitions⟩
      · rwa [count] at small
      · rw [List.append_nil]
        exact held

theorem startAccepts (all : W.AcceptsAll) (start : W.State) (accepts : encoder.Accepts inputs) :
    ∃ w s, encoder.start start = .ok w s := by
  obtain ⟨units, progress, prologue, bytes, sends⟩ := accepts
  have pushed := SequenceWriter.pushDescriptorsPushed encoder.descriptors (SequenceWriter.new start : SequenceWriter W)
  have counted := sends.counted
  unfold Encoder.start
  generalize SequenceWriter.pushDescriptors encoder.descriptors (SequenceWriter.new start) = r at pushed
  cases pushed with
  | refused _ _ _ _ _ cause => exact (cause rfl prologue sends.descriptors).elim
  | accepted _ encodes => exact ⟨_, _, rfl⟩
  | failed _ _ _ _ _ _ _ cause => exact absurd all cause
  | overflowed _ encodes inside _ exceeded =>
    cases encodesUnique encodes sends.descriptors
    have none : (SequenceWriter.new start : SequenceWriter W).bytesWritten = 0 := rfl
    omega

theorem sentAccepts {w : EncodingWriter W} (sent : Sent start encoder inputs w) : encoder.Accepts inputs := by
  obtain ⟨_, ⟨units, prologue, bytes, sends, _⟩, _⟩ := sent
  exact ⟨units, _, prologue, bytes, sends⟩

def accepted (w : EncodingWriter W) : List TemporalUnitInput → List TemporalUnitInput
  | [] => []
  | input :: inputs =>
    match outcome (pushTemporalUnit input) w with
    | (.ok (), w') => input :: accepted w' inputs
    | (.error _, w') => accepted w' inputs

theorem afterAppend (w : EncodingWriter W) (xs ys : List TemporalUnitInput) :
    w.after (xs ++ ys) = (w.after xs).after ys := by
  induction xs generalizing w with
  | nil => rfl
  | cons x xs ih => exact ih _

theorem afterSnoc (w : EncodingWriter W) (xs : List TemporalUnitInput) (x : TemporalUnitInput) :
    w.after (xs ++ [x]) = (outcome (pushTemporalUnit x) (w.after xs)).2 := afterAppend w xs [x]

theorem acceptedAppend (w : EncodingWriter W) (xs ys : List TemporalUnitInput) :
    w.accepted (xs ++ ys) = w.accepted xs ++ (w.after xs).accepted ys := by
  induction xs generalizing w with
  | nil => rfl
  | cons x xs ih =>
    rw [List.cons_append, accepted, accepted, after]
    rcases outcome (pushTemporalUnit x) w with ⟨_ | _, w'⟩
    · exact ih w'
    · exact congrArg (x :: ·) (ih w')

theorem runLowers (w : EncodingWriter W) (inputs : List TemporalUnitInput) :
    ∃ units, w.encoder.Lowers w.progress (w.accepted inputs) units (w.after inputs).progress := by
  induction inputs generalizing w with
  | nil => exact ⟨[], .nil⟩
  | cons input inputs ih =>
    have push := outcomePushed w input
    rw [accepted, after]
    generalize outcome (pushTemporalUnit input) w = r at push ⊢
    cases push with
    | stopped | refused => exact ih w
    | @failed unit next e sequence => exact ih { w with sequence := sequence }
    | @accepted unit next sequence sound checked sent =>
      obtain ⟨units, rest⟩ := ih { w with sequence := sequence, progress := next }
      exact ⟨_ :: units, .cons checked rest⟩

theorem poisonedRun {w : EncodingWriter W} (poisoned : w.sequence.state = .poisoned) (inputs : List TemporalUnitInput) :
    w.after inputs = w ∧ w.accepted inputs = [] := by
  induction inputs with
  | nil => exact ⟨rfl, rfl⟩
  | cons input inputs ih =>
    rw [after, accepted, pushedOutcome (.stopped poisoned)]
    exact ih

theorem runSent (all : W.AcceptsAll) {w : EncodingWriter W} {done : List TemporalUnitInput}
    (sent : Sent start encoder done w) (inputs : List TemporalUnitInput) :
    encoder.Accepts (done ++ w.accepted inputs) ∧
      (Sent start encoder (done ++ w.accepted inputs) (w.after inputs) ∨
        (w.after inputs).sequence.state = .poisoned ∧
          (W.held start).length + u64Max < (W.held (w.after inputs).sequence.sink).length) := by
  induction inputs generalizing w done with
  | nil =>
    rw [accepted, after, List.append_nil]
    exact ⟨sentAccepts sent, .inl sent⟩
  | cons input inputs ih =>
    have answered := pushSent all sent input
    rw [accepted, after]
    generalize outcome (pushTemporalUnit input) w = r at answered ⊢
    cases answered with
    | accepted sent' =>
      have rest := ih sent'
      rwa [List.append_assoc] at rest
    | refused sent' cause => exact ih sent'
    | exceeded poisoned long never =>
      obtain ⟨stays, none⟩ := poisonedRun poisoned inputs
      simp only [stays, none, List.append_nil]
      exact ⟨sentAccepts sent, .inr ⟨poisoned, long⟩⟩

theorem acceptsRun (all : W.AcceptsAll) {w : EncodingWriter W} {done inputs : List TemporalUnitInput}
    (sent : Sent start encoder done w) (accepts : encoder.Accepts (done ++ inputs)) :
    (∀ reply ∈ w.answers inputs, reply = .ok ()) ∧ Sent start encoder (done ++ inputs) (w.after inputs) := by
  induction inputs generalizing w done with
  | nil =>
    rw [List.append_nil]
    exact ⟨nofun, sent⟩
  | cons input inputs ih =>
    have answered := pushSent all sent input
    rw [List.append_cons] at accepts ⊢
    rw [answers, after, List.forall_mem_cons]
    generalize outcome (pushTemporalUnit input) w = r at answered ⊢
    cases answered with
    | accepted sent' =>
      obtain ⟨others, last⟩ := ih sent' accepts
      exact ⟨⟨rfl, others⟩, last⟩
    | refused sent' cause => exact (refusedNever sent cause (Encoder.acceptsFront accepts)).elim
    | exceeded poisoned long never => exact (never (Encoder.acceptsFront accepts)).elim

theorem acceptedAll {w : EncodingWriter W} {inputs : List TemporalUnitInput}
    (ok : ∀ reply ∈ w.answers inputs, reply = .ok ()) : w.accepted inputs = inputs := by
  induction inputs generalizing w with
  | nil => rfl
  | cons input inputs ih =>
    rw [answers, List.forall_mem_cons] at ok
    obtain ⟨first, others⟩ := ok
    have rest := ih others
    rw [accepted]
    generalize outcome (pushTemporalUnit input) w = r at first rest ⊢
    obtain ⟨reply, w'⟩ := r
    cases first
    exact congrArg (input :: ·) rest

theorem answersOk (all : W.AcceptsAll) {w : EncodingWriter W} {done inputs : List TemporalUnitInput}
    (sent : Sent start encoder done w) :
    (∀ reply ∈ w.answers inputs, reply = .ok ()) ↔ encoder.Accepts (done ++ inputs) := by
  constructor
  · intro ok
    obtain ⟨accepts, _⟩ := runSent all sent inputs
    rwa [acceptedAll ok] at accepts
  · exact fun accepts => (acceptsRun all sent accepts).1

theorem answersSent (all : W.AcceptsAll) {w : EncodingWriter W} {done inputs : List TemporalUnitInput}
    (sent : Sent start encoder done w) (ok : ∀ reply ∈ w.answers inputs, reply = .ok ()) :
    Sent start encoder (done ++ inputs) (w.after inputs) := (acceptsRun all sent ((answersOk all sent).mp ok)).2

theorem finishSent (all : W.AcceptsAll) {w : EncodingWriter W} (sent : Sent start encoder inputs w) :
    (outcome finish w).1 = guarded w.preSkipTrimmed (temporalInput .opusStartTrimShortOfPreSkip "trimming") ∧
      W.held (outcome finish w).2.sequence.sink = W.held w.sequence.sink := by
  have finished := outcomeFinished w
  generalize outcome finish w = r at finished ⊢
  cases finished with
  | stopped poisoned => exact absurd poisoned sent.unbroken
  | short _ trimmed =>
    rw [trimmed]
    exact ⟨rfl, rfl⟩
  | failed _ trimmed ended =>
    unfold SequenceWriter.finish at ended
    rw [if_neg sent.unbroken] at ended
    have flushed := all.flushed w.sequence.sink
    rcases flush : W.flush w.sequence.sink with ⟨_ | _, sink⟩
    · rw [flush] at flushed
      cases flushed
    · rw [flush] at ended
      cases ended
  | @done sequence _ trimmed ended =>
    rw [trimmed]
    refine ⟨rfl, ?_⟩
    have held := (SequenceWriter.finishHeld w.sequence).1
    unfold SequenceWriter.outcome at held
    rwa [ended] at held

theorem sentAlike {V : Sink} (all : W.AcceptsAll) (all' : V.AcceptsAll) {start' : V.State} {w : EncodingWriter W}
    {v : EncodingWriter V} (sent : Sent start encoder inputs w) (sent' : Sent start' encoder inputs v) :
    (∃ bytes, W.held w.sequence.sink = W.held start ++ bytes ∧ V.held v.sequence.sink = V.held start' ++ bytes ∧
      W.held (outcome finish w).2.sequence.sink = W.held start ++ bytes ∧
      V.held (outcome finish v).2.sequence.sink = V.held start' ++ bytes) ∧
    (outcome finish v).1 = (outcome finish w).1 := by
  obtain ⟨answer, end'⟩ := finishSent all sent
  obtain ⟨answer', end''⟩ := finishSent all' sent'
  obtain ⟨same, ⟨units, prologue, bytes, sends, held, _⟩, _⟩ := sent
  obtain ⟨same', ⟨units', prologue', bytes', sends', held', _⟩, _⟩ := sent'
  obtain ⟨rfl, progress, rfl, rfl⟩ := Encoder.sendsUnique sends sends'
  have trimmed : v.preSkipTrimmed = w.preSkipTrimmed := by
    unfold preSkipTrimmed
    rw [same, same', progress]
  refine ⟨⟨_, held, held', end'.trans held, end''.trans held'⟩, ?_⟩
  rw [answer, answer', trimmed]

end EncodingWriter

end Iamf.Wire
