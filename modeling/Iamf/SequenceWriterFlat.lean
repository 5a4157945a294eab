import Iamf.SequenceWriterRuns

/-! The streaming writer and the flat writer are one encoder. -/
namespace Iamf.Wire
open Bits BitString TapeCodec WriteTape

/-- A byte vector in memory: its length is a machine word. -/
def InMemory (bytes : Bytes) : Prop := bytes.length ≤ u64Max

theorem encodedUnit {registry : ParamDefinitionRegistry} {unit : TemporalUnit} {units : List TemporalUnit}
    {bytes : Bytes} : finishWriter (writeSequenceObus registry ((unit :: units).flatMap (·.obus))) = .ok bytes ↔
      ∃ a b, finishWriter (writeSequenceObus registry unit.obus) = .ok a ∧
        finishWriter (writeSequenceObus registry (units.flatMap (·.obus))) = .ok b ∧ bytes = a ++ b := by
  rw [List.flatMap_cons, encodedAppend, observeUnit]

theorem encodedParts {set : DescriptorSet} {units : List TemporalUnit} {bytes : Bytes} :
    finishWriter (writeSequenceObus .new (ParsedSequence.fromParts set units).obus) = .ok bytes ↔
      ∃ a b, finishWriter (writeDescriptors set) = .ok a ∧
        finishWriter (writeSequenceObus (.fromDescriptors set) (units.flatMap (·.obus))) = .ok b ∧ bytes = a ++ b := by
  have prologue := (agreeDescriptors set).same
  unfold ParsedSequence.fromParts
  rw [encodedAppend, observeDescriptors]
  simp only [prologue]

namespace SequenceWriter

variable {W : Sink}

theorem unitsSent {units : List TemporalUnit} {w w' : SequenceWriter W} (turn : w.state = .descriptorsWritten)
    (ok : writeEach pushTemporalUnit units w = .ok () w') :
    w'.state = .descriptorsWritten ∧ (∀ unit ∈ units, validateTemporalUnit unit.audioFrames = .ok ()) ∧
      ∃ bytes, finishWriter (writeSequenceObus w.definitions (units.flatMap (·.obus))) = .ok bytes ∧
        W.held w'.sink = W.held w.sink ++ bytes := by
  induction units generalizing w with
  | nil =>
    cases ok
    exact ⟨turn, by simp, [], rfl, (List.append_nil _).symm⟩
  | cons unit units ih =>
    obtain ⟨_, v, first, others⟩ := bindOk ok
    have step := pushed (.temporalUnit unit) w
    rw [show (Call.temporalUnit unit).push w = .ok () v from first] at step
    cases step with
    | accepted _ encodes held count state definitions unbroken =>
      obtain ⟨last, valid, bytes, encoded, held'⟩ := ih state others
      rw [definitions] at encoded
      refine ⟨last, List.forall_mem_cons.mpr ⟨encodes.1, valid⟩, _, encodedUnit.mpr ⟨_, _, encodes.2, encoded, rfl⟩, ?_⟩
      rw [held', held, List.append_assoc]

theorem unitsTaken (all : W.AcceptsAll) {units : List TemporalUnit} {w : SequenceWriter W} {bytes : Bytes}
    (turn : w.state = .descriptorsWritten)
    (valid : ∀ unit ∈ units, validateTemporalUnit unit.audioFrames = .ok ())
    (encoded : finishWriter (writeSequenceObus w.definitions (units.flatMap (·.obus))) = .ok bytes)
    (small : w.bytesWritten + bytes.length ≤ u64Max) :
    ∃ w', writeEach pushTemporalUnit units w = .ok () w' ∧ w'.state = .descriptorsWritten := by
  induction units generalizing w bytes with
  | nil => exact ⟨w, rfl, turn⟩
  | cons unit units ih =>
    obtain ⟨a, b, head, tail, rfl⟩ := encodedUnit.mp encoded
    rw [List.length_append] at small
    have encodes : (Call.temporalUnit unit).Encodes w.definitions a := ⟨valid unit (by simp), head⟩
    have step := pushed (.temporalUnit unit) w
    have unique {c : Bytes} (other : (Call.temporalUnit unit).Encodes w.definitions c) : c = a :=
      (Except.ok.inj (head.symm.trans other.2)).symm
    cases ran : (Call.temporalUnit unit).push w with
    | ok u v =>
      rw [ran] at step
      cases step with
      | accepted _ other held count state definitions unbroken =>
        cases unique other
        obtain ⟨w', others, last⟩ := ih (w := v) state (fun unit among => valid unit (List.mem_cons_of_mem _ among))
          (by rw [definitions]; exact tail) (by omega)
        exact ⟨w', (bindOf _ ran).trans others, last⟩
    | error e v =>
      rw [ran] at step
      cases step with
      | refused sink count state definitions poisoned cause => exact (cause turn a encodes).elim
      | failed _ other inside held count state broken cause => exact (cause all).elim
      | overflowed _ other inside held exceeded state =>
        cases unique other
        omega

end SequenceWriter

open SequenceWriter

theorem writeSequenceSent {W : Sink} {set : DescriptorSet} {units : List TemporalUnit} {start stop : W.State}
    (ok : writeSequence W set units start = .ok () stop) :
    (∀ unit ∈ units, validateTemporalUnit unit.audioFrames = .ok ()) ∧
      ∃ bytes, finishWriter (writeSequenceObus .new (ParsedSequence.fromParts set units).obus) = .ok bytes ∧
        W.held stop = W.held start ++ bytes := by
  unfold writeSequence at ok
  split at ok
  · rename_i w' run
    cases ok
    obtain ⟨_, v, prologue, run⟩ := bindOk run
    obtain ⟨_, w, pushes, ended⟩ := bindOk run
    have step := pushed (.descriptors set) (new start)
    rw [show (Call.descriptors set).push (new start) = .ok () v from prologue] at step
    cases step with
    | accepted _ encodes held count state definitions unbroken =>
      obtain ⟨_, valid, bytes, encoded, held'⟩ := unitsSent state pushes
      rw [definitions] at encoded
      refine ⟨valid, _, encodedParts.mpr ⟨_, _, encodes, encoded, rfl⟩, ?_⟩
      have flush := (finishHeld w).1
      simp only [outcome, ended] at flush
      rw [flush, held', held, List.append_assoc]
      rfl
  · cases ok

theorem writeSequenceTaken {W : Sink} (all : W.AcceptsAll) {set : DescriptorSet} {units : List TemporalUnit}
    {bytes : Bytes} (start : W.State)
    (encoded : finishWriter (writeSequenceObus .new (ParsedSequence.fromParts set units).obus) = .ok bytes)
    (valid : ∀ unit ∈ units, validateTemporalUnit unit.audioFrames = .ok ()) (small : InMemory bytes) :
    ∃ stop, writeSequence W set units start = .ok () stop := by
  obtain ⟨a, b, prologue, rest, rfl⟩ := encodedParts.mp encoded
  unfold InMemory at small
  rw [List.length_append] at small
  have step := pushed (.descriptors set) (new start)
  cases ran : (Call.descriptors set).push (new start) with
  | error e v =>
    rw [ran] at step
    cases step with
    | refused sink count state definitions poisoned cause => exact (cause rfl a prologue).elim
    | failed _ other inside held count state broken cause => exact (cause all).elim
    | overflowed _ other inside held exceeded state =>
      cases prologue.symm.trans other
      simp only [new] at exceeded
      omega
  | ok u v =>
    rw [ran] at step
    cases step with
    | accepted _ other held count state definitions unbroken =>
      cases prologue.symm.trans other
      simp only [new] at count
      obtain ⟨w, pushes, last⟩ := unitsTaken all state valid (by rw [definitions]; exact rest) (by omega)
      have flushed := all.flushed w.sink
      rcases flush : W.flush w.sink with ⟨done, sink⟩
      rw [flush] at flushed
      have ended : finish w = .ok () { w with sink := sink } := by
        rw [show done = true from flushed] at flush
        simp only [finish, last, flush, reduceCtorEq, if_false]
      have calls : writeSequenceCalls set units (new start) = .ok () { w with sink := sink } := by
        unfold writeSequenceCalls
        rw [bindOf _ (show pushDescriptors set (new start) = .ok () v from ran), bindOf _ pushes, ended]
      refine ⟨sink, ?_⟩
      unfold writeSequence
      rw [calls]

theorem streamingIsFlat {W : Sink} (all : W.AcceptsAll) (start : W.State) (set : DescriptorSet)
    (units : List TemporalUnit)
    (small : ∀ bytes, finishWriter (writeSequenceObus .new (ParsedSequence.fromParts set units).obus) = .ok bytes →
      InMemory bytes) :
    ((∃ stop, writeSequence W set units start = .ok () stop) ↔
      (∃ stop, writeParsedSequence W (.fromParts set units) start = .ok () stop) ∧
        ∀ unit ∈ units, validateTemporalUnit unit.audioFrames = .ok ()) ∧
    ∀ stop, writeSequence W set units start = .ok () stop →
      ∃ stop', writeParsedSequence W (.fromParts set units) start = .ok () stop' ∧ W.held stop' = W.held stop := by
  have flat {stop : W.State} (ok : writeSequence W set units start = .ok () stop) :
      ∃ stop', writeParsedSequence W (.fromParts set units) start = .ok () stop' ∧ W.held stop' = W.held stop := by
    obtain ⟨_, bytes, encoded, held⟩ := writeSequenceSent ok
    obtain ⟨stop', ok'⟩ := writeParsedSequenceTaken all start encoded
    obtain ⟨bytes', encoded', held'⟩ := writeParsedSequenceHeld ok'
    cases encoded.symm.trans encoded'
    exact ⟨stop', ok', held'.trans held.symm⟩
  refine ⟨⟨?_, ?_⟩, fun stop ok => flat ok⟩
  · rintro ⟨stop, ok⟩
    obtain ⟨stop', ok', _⟩ := flat ok
    exact ⟨⟨stop', ok'⟩, (writeSequenceSent ok).1⟩
  · rintro ⟨⟨stop, ok⟩, valid⟩
    obtain ⟨bytes, encoded, _⟩ := writeParsedSequenceHeld ok
    exact writeSequenceTaken all start encoded valid (small bytes encoded)

theorem sortedTwo {T : Type} {id : T → UInt32} {a b : T} (below : id b < id a) : sortedById id [a, b] = [b, a] := by
  have above : ¬ id a ≤ id b := UInt32.not_le.mpr below
  simp [sortedById, List.mergeSort, List.MergeSort.Internal.splitInTwo, above]

-- two elements declared against the order of their ids; the first of them says what a block means
def swappedSet : DescriptorSet :=
  ⟨.new 0 0, [], [⟨2, 0, .channelBased ⟨0, [.new .stereo 1 1]⟩, 0, [0], [.demixing (.mode1 9 48000) 1 0 0 0], []⟩,
    .channelBased 1 0 [1] (.singleLayer (.new .mono 1 0))], []⟩

def swappedUnit : TemporalUnit :=
  ⟨some ⟨⟩, [.new (.new .parameterBlock) ⟨9, some ⟨8, 8⟩, [⟨none, .demixing ⟨2, 0⟩⟩]⟩],
    [AudioFrame.intoObu ⟨0, [1, 2]⟩ (some ⟨3, 0⟩), AudioFrame.intoObu ⟨1, [3]⟩ (some ⟨3, 0⟩)]⟩

theorem streamingIsFlatSwapped :
    ∃ stop stop', writeSequence Sink.buffer swappedSet [swappedUnit, swappedUnit] [] = .ok () stop ∧
      writeParsedSequence Sink.buffer (.fromParts swappedSet [swappedUnit, swappedUnit]) [] = .ok () stop' ∧
      Sink.buffer.held stop' = Sink.buffer.held stop := by
  have sorted : swappedSet.sortedElements = swappedSet.audioElements.reverse := sortedTwo (by decide)
  obtain ⟨bytes, encoded, short⟩ : ∃ bytes, finishWriter (writeSequenceObus .new
      (ParsedSequence.fromParts swappedSet [swappedUnit, swappedUnit]).obus) = .ok bytes ∧ bytes.length ≤ 100 := by
    rw [ParsedSequence.fromParts, DescriptorSet.obus, sorted]
    exact writtenWithin (by decide +kernel)
  obtain ⟨iff, same⟩ := streamingIsFlat Sink.bufferAcceptsAll [] swappedSet [swappedUnit, swappedUnit]
    (fun bytes other => by cases encoded.symm.trans other; exact Nat.le_trans short (by decide))
  have valid : ∀ unit ∈ [swappedUnit, swappedUnit], validateTemporalUnit unit.audioFrames = .ok () := by
    intro unit among
    rcases List.mem_pair.mp among with rfl | rfl <;> rfl
  obtain ⟨stop, ok⟩ := iff.mpr ⟨writeParsedSequenceTaken Sink.bufferAcceptsAll [] encoded, valid⟩
  obtain ⟨stop', ok', held⟩ := same stop ok
  exact ⟨stop, stop', ok, ok', held⟩

end Iamf.Wire
