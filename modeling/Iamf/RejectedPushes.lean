import Iamf.EncodingRuns
import Iamf.HandleIds

/-! Rejected pushes leave no trace. The exception is a push that takes the byte counter past its
range: part of it has been sent by then, and the writer stays poisoned. -/
namespace Iamf.Wire
open Bits BitString TapeCodec EncodingWriter

def declareTiny (id : UInt32) : EncoderBuilder.Declare MixPresentationHandle := do
  let codec ← EncoderBuilder.addCodecConfig (.lpcm id 1 ⟨.littleEndian, 16, 48000⟩)
  let element ← EncoderBuilder.addAudioElement codec (stereoElement id)
  EncoderBuilder.addMixPresentation [element] (stereoPresentation id)

def tinyBuilder : EncoderBuilder := (declareTiny 0 (.new 7)).2

def tinyEncoder : Encoder :=
  ⟨⟨.new 0 0, [.lpcm 0 1 ⟨.littleEndian, 16, 48000⟩], [stereoElement 0], [stereoPresentation 0]⟩, 7⟩

theorem buildsTo {b : EncoderBuilder} {encoder : Encoder} (built : (b.build.toOption.map fun pair =>
    (pair.1.descriptors, pair.1.generation)) = some (encoder.descriptors, encoder.generation)) :
    ∃ manifest, b.build = .ok (encoder, manifest) := by
  cases ran : b.build with
  | error e =>
    rw [ran] at built
    cases built
  | ok pair =>
    obtain ⟨⟨descriptors, generation⟩, manifest⟩ := pair
    rw [ran] at built
    cases Option.some.inj built
    exact ⟨manifest, rfl⟩

theorem tinyBuilds : ∃ manifest, tinyBuilder.build = .ok (tinyEncoder, manifest) := buildsTo (by decide +kernel)

def tinyUnit : TemporalUnitInput := ⟨[(⟨7, 0⟩, .lpcm [0, 0, 0, 0])], [], none⟩

def tinyLowered : TemporalUnit := ⟨none, [], [AudioFrame.intoObu ⟨0, [0, 0, 0, 0]⟩ none]⟩

theorem tinyWritten : ∃ prologue, finishWriter (writeDescriptors tinyEncoder.descriptors) = .ok prologue ∧
    prologue.length ≤ 100 := writtenWithin (by decide +kernel)

theorem tinyAccepts : tinyEncoder.Accepts [] := by
  obtain ⟨prologue, descriptors, small⟩ := tinyWritten
  exact ⟨[], .initial, prologue, [], .nil, descriptors, .nil, Nat.le_trans small (by decide)⟩

theorem rejectedPushesTraceless {encoder : Encoder} {V W : Sink} (all : W.AcceptsAll) (all' : V.AcceptsAll)
    {start : W.State} (start' : V.State)
    {w : EncodingWriter W} {s : SequenceWriter W} (started : encoder.start start = .ok w s)
    (inputs : List TemporalUnitInput) : ∃ v s', encoder.start start' = .ok v s' ∧
      (∀ reply ∈ v.answers (w.accepted inputs), reply = .ok ()) ∧
      ((W.held (w.after inputs).sequence.sink).length ≤ (W.held start).length + u64Max →
        (∃ bytes, W.held (w.after inputs).sequence.sink = W.held start ++ bytes ∧
          V.held (v.after (w.accepted inputs)).sequence.sink = V.held start' ++ bytes ∧
          W.held (outcome finish (w.after inputs)).2.sequence.sink = W.held start ++ bytes ∧
          V.held (outcome finish (v.after (w.accepted inputs))).2.sequence.sink = V.held start' ++ bytes) ∧
        (outcome finish (v.after (w.accepted inputs))).1 = (outcome finish (w.after inputs)).1) := by
  have sent := startSent started
  obtain ⟨accepts, last⟩ := runSent all sent inputs
  obtain ⟨v, s', again⟩ := startAccepts all' start' accepts
  obtain ⟨ok, sent'⟩ := acceptsRun all' (startSent again) accepts
  refine ⟨v, s', again, ok, fun total => ?_⟩
  rcases last with behind | ⟨_, long⟩
  · exact sentAlike all all' behind sent'
  · omega

def tinyInputs : List TemporalUnitInput := [⟨[], [], none⟩, tinyUnit, ⟨[(⟨7, 0⟩, .lpcm [0, 0])], [], none⟩, tinyUnit]

theorem rejectedPushesTracelessTiny : ∃ w s v s' bytes, tinyEncoder.start (W := Sink.buffer) [] = .ok w s ∧
    tinyEncoder.start (W := Sink.buffer) [] = .ok v s' ∧ w.accepted tinyInputs = [tinyUnit, tinyUnit] ∧
    (∀ reply ∈ v.answers [tinyUnit, tinyUnit], reply = .ok ()) ∧
    Sink.buffer.held (outcome finish (w.after tinyInputs)).2.sequence.sink = bytes ∧
    Sink.buffer.held (outcome finish (v.after [tinyUnit, tinyUnit])).2.sequence.sink = bytes ∧
    (outcome finish (v.after [tinyUnit, tinyUnit])).1 = (outcome finish (w.after tinyInputs)).1 := by
  obtain ⟨w, s, started, ran⟩ := @Encoder.startedOf Sink.buffer tinyEncoder [] (fun w =>
    w.accepted tinyInputs == [tinyUnit, tinyUnit] &&
      decide ((Sink.buffer.held (w.after tinyInputs).sequence.sink).length ≤ 100)) (by decide +kernel)
  rw [Bool.and_eq_true, beq_iff_eq, decide_eq_true_eq] at ran
  obtain ⟨v, s', again, ok, same⟩ := rejectedPushesTraceless Sink.bufferAcceptsAll Sink.bufferAcceptsAll ([] : Bytes)
    started tinyInputs
  have small : (Sink.buffer.held ([] : Bytes)).length + u64Max = u64Max := Nat.zero_add _
  obtain ⟨⟨bytes, _, _, ended, ended'⟩, answers⟩ := same (small ▸ Nat.le_trans ran.2 (by decide))
  rw [ran.1] at ok ended' answers
  exact ⟨w, s, v, s', bytes, started, again, ran.1, ok, ended, ended', answers⟩

theorem tinyRegistry : ParamDefinitionRegistry.fromDescriptors tinyEncoder.descriptors =
    tinyEncoder.descriptors.mixPresentations.foldl ParamDefinitionRegistry.observeMixPresentation .new := by
  have elements : tinyEncoder.descriptors.sortedElements = tinyEncoder.descriptors.audioElements := sortedOne _ _
  unfold ParamDefinitionRegistry.fromDescriptors
  rw [elements]
  rfl

theorem tinyFirst : tinyEncoder.preflight .initial tinyUnit = .ok (tinyLowered, ⟨some [], false, false, 0⟩) := by
  unfold Encoder.preflight
  rw [tinyRegistry]
  rfl

theorem tinyNext : tinyEncoder.preflight ⟨some [], false, false, 0⟩ tinyUnit = .ok (tinyLowered, ⟨some [], false, false, 0⟩) := by
  unfold Encoder.preflight
  rw [tinyRegistry]
  rfl

theorem tinyEncodes : (Call.temporalUnit tinyLowered).Encodes (.fromDescriptors tinyEncoder.descriptors)
    [0x30, 4, 0, 0, 0, 0] := by
  rw [tinyRegistry]
  have encoded : (finishWriter (writeSequenceObus (tinyEncoder.descriptors.mixPresentations.foldl
      ParamDefinitionRegistry.observeMixPresentation .new) tinyLowered.obus)).toOption = some [0x30, 4, 0, 0, 0, 0] := by
    decide +kernel
  refine ⟨rfl, ?_⟩
  cases ran : finishWriter (writeSequenceObus (tinyEncoder.descriptors.mixPresentations.foldl
      ParamDefinitionRegistry.observeMixPresentation .new) tinyLowered.obus) with
  | error e =>
    rw [ran] at encoded
    cases encoded
  | ok bytes =>
    rw [ran] at encoded
    exact congrArg Except.ok (Option.some.inj encoded)

def TinyReady (progress : TemporalProgress) : Prop := progress = .initial ∨ progress = ⟨some [], false, false, 0⟩

theorem tinyPasses {progress : TemporalProgress} (ready : TinyReady progress) :
    tinyEncoder.preflight progress tinyUnit = .ok (tinyLowered, ⟨some [], false, false, 0⟩) := by
  rcases ready with rfl | rfl
  · exact tinyFirst
  · exact tinyNext

theorem tinyLength {k : Nat} {progress last : TemporalProgress} {units : List TemporalUnit} {bytes : Bytes}
    (ready : TinyReady progress) (lowers : tinyEncoder.Lowers progress (List.replicate k tinyUnit) units last)
    (encodes : Encoder.UnitBytes (.fromDescriptors tinyEncoder.descriptors) units bytes) : bytes.length = 6 * k := by
  induction k generalizing progress units bytes with
  | zero =>
    cases lowers
    cases encodes
    rfl
  | succ k ih =>
    cases lowers with
    | cons head tail =>
    cases encodes with
    | cons one others =>
    cases (tinyPasses ready).symm.trans head
    cases encodesUnique tinyEncodes one
    have rest := ih (.inr rfl) tail others
    rw [List.length_append, rest]
    simp only [List.length_cons, List.length_nil]
    omega

theorem tinyRun {W : Sink} (all : W.AcceptsAll) {start : W.State} {done : List TemporalUnitInput} {w : EncodingWriter W}
    (sent : Sent start tinyEncoder done w) (ready : TinyReady w.progress) (k : Nat) :
    w.accepted (List.replicate k tinyUnit) = List.replicate k tinyUnit ∨
      (w.after (List.replicate k tinyUnit)).sequence.state = .poisoned := by
  induction k generalizing w done with
  | zero => exact .inl rfl
  | succ k ih =>
    have answered := pushSent all sent tinyUnit
    rw [List.replicate_succ, accepted, after]
    generalize outcome (pushTemporalUnit tinyUnit) w = r at answered ⊢
    cases answered with
    | accepted sent' =>
      obtain ⟨_, ⟨units, prologue, bytes, sends, _⟩, _⟩ := sent
      obtain ⟨_, ⟨units', prologue', bytes', sends', _⟩, _⟩ := id sent'
      obtain ⟨unit, whole, passed, _⟩ := sendsSnoc sends sends'
      have next := congrArg Prod.snd (Except.ok.inj ((tinyPasses ready).symm.trans passed))
      exact (ih sent' (.inr next.symm)).imp (congrArg (tinyUnit :: ·)) id
    | refused sent' cause => exact (cause _ _ _ (tinyPasses ready) tinyEncodes).elim
    | exceeded poisoned long never =>
      right
      rw [(poisonedRun poisoned _).1]
      exact poisoned

theorem tinyOverflow {W : Sink} (all : W.AcceptsAll) {start : W.State} {w : EncodingWriter W} {s : SequenceWriter W}
    (started : tinyEncoder.start start = .ok w s) {k : Nat} (many : u64Max < 6 * k) :
    (outcome finish (w.after (w.accepted (List.replicate k tinyUnit)))).1 ≠
      (outcome finish (w.after (List.replicate k tinyUnit))).1 := by
  have sent := startSent started
  have ready : TinyReady w.progress := by
    obtain ⟨_, ⟨units, prologue, bytes, sends, _⟩, _⟩ := id sent
    exact .inl (Encoder.lowersUnique .nil sends.lowers).2
  obtain ⟨accepts, _⟩ := runSent all sent (List.replicate k tinyUnit)
  obtain ⟨ok, sent'⟩ := acceptsRun all sent accepts
  have poisoned : (w.after (List.replicate k tinyUnit)).sequence.state = .poisoned := by
    rcases tinyRun all sent ready k with whole | poisoned
    · -- all of them accepted would be more bytes than were counted
      rw [whole] at accepts
      obtain ⟨units, progress, prologue, bytes, sends⟩ := accepts
      have length := tinyLength (.inl rfl) sends.lowers sends.encodes
      have counted := sends.counted
      omega
    · exact poisoned
  have trimmed : (w.after (w.accepted (List.replicate k tinyUnit))).preSkipTrimmed = true := by
    unfold preSkipTrimmed
    rw [sent'.same]
    rfl
  rw [finishedOutcome (.stopped poisoned), (finishSent all sent').1, trimmed]
  nofun

theorem overflowLeavesTrace : Sink.buffer.AcceptsAll ∧ ∃ manifest, tinyBuilder.build = .ok (tinyEncoder, manifest) ∧
    ∃ w s, tinyEncoder.start (W := Sink.buffer) [] = .ok w s ∧
      (outcome finish (w.after (w.accepted (List.replicate (2 ^ 64) tinyUnit)))).1 ≠
        (outcome finish (w.after (List.replicate (2 ^ 64) tinyUnit))).1 := by
  obtain ⟨manifest, built⟩ := tinyBuilds
  obtain ⟨w, s, started⟩ := startAccepts Sink.bufferAcceptsAll ([] : Bytes) tinyAccepts
  exact ⟨Sink.bufferAcceptsAll, manifest, built, w, s, started,
    tinyOverflow Sink.bufferAcceptsAll started (by decide)⟩

end Iamf.Wire
