import Iamf.RecoveredUnits

/-! An output that broke off, repaired: what a reader has of it is encoded again. Nothing is written that
the broken output did not hold, and no accepted unit is missing. -/
namespace Iamf.Wire
open Bits BitString TapeCodec

theorem Built.partWhole {b : EncoderBuilder} {encoder : Encoder} {manifest : IdManifest} (built : Built b encoder manifest)
    {config : CodecConfig} (configs : encoder.descriptors.codecConfigs = [config]) {input : TemporalUnitInput}
    (pushed : encoder.Sound input) {behind : List SequenceObu} (front : behind <+: (encoder.lowered input).obus)
    (part : encoder.Sound (receivedInput encoder.generation config.decoderConfig behind)) :
    behind = (encoder.lowered input).obus := by
  obtain ⟨tail, split⟩ := front
  have frames := congrArg TemporalUnitInput.frames (inputReceived built configs pushed)
  have count := part.count.trans pushed.count.symm
  change (encoder.lowered input).obus.filterMap _ = _ at frames
  change (behind.filterMap _).length = _ at count
  rw [← frames, ← split, List.filterMap_append, List.length_append] at count
  have none : tail.filterMap (receivedFrame encoder.generation config.decoderConfig) = [] :=
    List.length_eq_zero_iff.mp (by omega)
  by_cases more : tail = []
  · rw [← split, more, List.append_nil]
  · -- a unit ends with a frame
    exfalso
    let frame := fun entry : (SubstreamHandle × FrameInput) × UInt32 =>
      AudioFrame.intoObu ⟨entry.2, framePayload entry.1.2⟩ input.trimming
    have obus : (encoder.lowered input).obus = (encoder.lowered input).parameterBlocks.map .parameterBlock ++
        ((input.frames.zip encoder.declaredSubstreams).map frame).map .audioFrame := rfl
    have filled : ((input.frames.zip encoder.declaredSubstreams).map frame).map SequenceObu.audioFrame ≠ [] := by
      intro empty
      have size := congrArg List.length empty
      rw [List.length_map, List.length_map, List.length_zip, pushed.count, Nat.min_self] at size
      exact built.hasSubstream (List.length_eq_zero_iff.mp size)
    have last : tail.getLast more ∈ ((input.frames.zip encoder.declaredSubstreams).map frame).map SequenceObu.audioFrame := by
      have ends : tail.getLast more = (((input.frames.zip encoder.declaredSubstreams).map frame).map
          SequenceObu.audioFrame).getLast filled := by
        rw [← List.getLast_append_of_right_ne_nil behind _ more, ← List.getLast_append_of_right_ne_nil
          ((encoder.lowered input).parameterBlocks.map SequenceObu.parameterBlock) _ filled]
        simp only [split, obus]
      rw [ends]
      exact List.getLast_mem filled
    obtain ⟨obu, _, same⟩ := List.mem_map.mp last
    have seen := List.filterMap_eq_nil_iff.mp none (tail.getLast more) (List.getLast_mem more)
    rw [← same] at seen
    cases seen

namespace EncodingWriter

variable {V : Sink}

theorem sentAgain (all : V.AcceptsAll) {encoder : Encoder} {inputs : List TemporalUnitInput} {units : List TemporalUnit}
    {progress : TemporalProgress} {prologue bytes : Bytes} (sends : encoder.Sends inputs units progress prologue bytes)
    (start : V.State) : ∃ v s, encoder.start start = .ok v s ∧ Sent start encoder inputs (v.after inputs) ∧
      V.held (v.after inputs).sequence.sink = V.held start ++ (prologue ++ bytes) ∧ v.accepted inputs = inputs := by
  have accepts : encoder.Accepts ([] ++ inputs) := ⟨units, progress, prologue, bytes, sends⟩
  obtain ⟨v, s, started⟩ := startAccepts all start (Encoder.acceptsFront accepts)
  obtain ⟨answered, sent⟩ := acceptsRun all (startSent started) accepts
  obtain ⟨_, _, _, sends', held, _⟩ := sent.sends
  obtain ⟨rfl, _, rfl, rfl⟩ := Encoder.sendsUnique sends sends'
  exact ⟨v, s, started, sent, held, acceptedAll answered⟩

theorem sendsMore {encoder : Encoder} {inputs : List TemporalUnitInput} {input : TemporalUnitInput}
    {units us : List TemporalUnit} {unit : TemporalUnit} {progress next last : TemporalProgress}
    {prologue bytes whole prologue' bytes' : Bytes} (sends : encoder.Sends inputs units progress prologue bytes)
    (checked : encoder.preflight progress input = .ok (unit, next))
    (encodes : (Call.temporalUnit unit).Encodes (.fromDescriptors encoder.descriptors) whole)
    (more : encoder.Sends (inputs ++ [input]) us last prologue' bytes') :
    prologue' ++ bytes' = prologue ++ bytes ++ whole := by
  have both : Encoder.UnitBytes (.fromDescriptors encoder.descriptors) (units ++ [unit]) (bytes ++ (whole ++ [])) :=
    Encoder.unitBytesAppend.mpr ⟨bytes, _, rfl, sends.encodes, .cons encodes .nil⟩
  obtain ⟨rfl, _⟩ := Encoder.lowersUnique (Encoder.lowersSnoc sends.lowers checked) more.lowers
  rw [Except.ok.inj (more.descriptors.symm.trans sends.descriptors), Encoder.unitBytesUnique more.encodes both,
    List.append_nil, List.append_assoc]

/-- What a part of a unit leads to, pushed where the whole one had been and `old` was written: nothing new,
or the unit again. -/
structure Again (start : V.State) (encoder : Encoder) (inputs : List TemporalUnitInput) (input : TemporalUnitInput)
    (front whole old : Bytes) (added : List TemporalUnitInput) (v : EncodingWriter V) (out : Bytes) : Prop where
  held : V.held v.sequence.sink = V.held start ++ out
  within : out <+: old
  again : added = [] ∨ added = [input] ∧ out = old
  sound : v.sequence.state ≠ .poisoned → Sent start encoder (inputs ++ added) v
  exceeded : v.sequence.state = .poisoned → u64Max < old.length ∧ added = [] ∧
    ∃ m, m ≤ whole.length ∧ out = front ++ whole.take m

theorem partAgain (all : V.AcceptsAll) {encoder : Encoder} {inputs : List TemporalUnitInput}
    {input part : TemporalUnitInput} {units : List TemporalUnit} {unit : TemporalUnit} {progress next : TemporalProgress}
    {prologue bytes whole : Bytes} {n : Nat} (sends : encoder.Sends inputs units progress prologue bytes)
    (checked : encoder.preflight progress input = .ok (unit, next))
    (encodes : (Call.temporalUnit unit).Encodes (.fromDescriptors encoder.descriptors) whole)
    (same : encoder.Sound part → part = input ∧ n = whole.length) {start : V.State} {v : EncodingWriter V}
    (sent : Sent start encoder inputs v) : ∃ out, Again start encoder inputs input (prologue ++ bytes) whole
      (prologue ++ bytes ++ whole.take n) (v.accepted [part]) (outcome (pushTemporalUnit part) v).2 out := by
  have struck := pushStruck sent part
  have answered := pushSent all sent part
  simp only [accepted]
  generalize outcome (pushTemporalUnit part) v = r at struck answered ⊢
  cases struck with
  | @accepted v' sent' =>
    obtain ⟨us, prologue'', bytes'', sends'', held'', _⟩ := sent'.sends
    obtain ⟨_, _, checked', _⟩ := sendsSnoc sends sends''
    obtain ⟨rfl, rfl⟩ := same (Encoder.preflightOk.mp checked').1
    have old : prologue'' ++ bytes'' = prologue ++ bytes ++ whole.take whole.length := by
      rw [sendsMore sends checked encodes sends'', List.take_length]
    exact ⟨_, held'', old ▸ List.prefix_refl _, .inr ⟨rfl, old⟩, fun _ => sent',
      fun poisoned => absurd poisoned sent'.unbroken⟩
  | @refused _ v' sent' =>
    obtain ⟨us, prologue'', bytes'', sends'', held'', _⟩ := sent'.sends
    obtain ⟨rfl, _, rfl, rfl⟩ := Encoder.sendsUnique sends sends''
    refine ⟨_, held'', List.prefix_append _ _, .inl rfl, fun _ => ?_, fun poisoned => absurd poisoned sent'.unbroken⟩
    rw [List.append_nil]
    exact sent'
  | @torn _ v' torn =>
    obtain ⟨_, _, p, q, _, _, _, m, sends'', checked', encodes', inside, held''⟩ := torn.part
    obtain ⟨rfl, rfl, rfl, rfl⟩ := Encoder.sendsUnique sends sends''
    obtain ⟨rfl, rfl⟩ := same (Encoder.preflightOk.mp checked').1
    cases checked.symm.trans checked'
    cases encodesUnique encodes encodes'
    have within : p ++ q ++ whole.take m <+: p ++ q ++ whole.take whole.length := by
      rw [List.take_length]
      exact (List.prefix_append_right_inj _).mpr (List.take_prefix m _)
    refine ⟨_, held'', within, .inl rfl, fun sound => absurd torn.poisoned sound, fun _ => ⟨?_, rfl, m, inside, rfl⟩⟩
    -- on such a sink only the byte counter breaks the writer
    cases answered with
    | refused sent' => exact absurd torn.poisoned sent'.unbroken
    | exceeded _ long =>
      rw [held'', List.length_append] at long
      have short := within.length_le
      omega

end EncodingWriter

def Encoder.recoveredInputs (encoder : Encoder) (bytes : Bytes) : List TemporalUnitInput :=
  (recoveredSequence bytes).receivedInputs encoder.generation

theorem repairedOutput {b : EncoderBuilder} {encoder : Encoder} {manifest : IdManifest}
    (ok : b.build = .ok (encoder, manifest)) {W V : Sink} {start : W.State} {w : EncodingWriter W} {s : SequenceWriter W}
    (started : encoder.start start = .ok w s) (inputs : List TemporalUnitInput) (all : V.AcceptsAll) (start' : V.State) :
    ∃ bytes v s' out, W.held (w.after inputs).sequence.sink = W.held start ++ bytes ∧
      encoder.start start' = .ok v s' ∧
      V.held (v.after (encoder.recoveredInputs bytes)).sequence.sink = V.held start' ++ out ∧ out <+: bytes ∧
      ((w.after inputs).sequence.state ≠ .poisoned → out = bytes ∧
        v.accepted (encoder.recoveredInputs bytes) = w.accepted inputs ∧
        (v.after (encoder.recoveredInputs bytes)).sequence.state ≠ .poisoned) ∧
      ((w.after inputs).sequence.state = .poisoned → ∃ before input, w.BrokeAt inputs before input ∧
        (v.accepted (encoder.recoveredInputs bytes) = w.accepted inputs ∨
          v.accepted (encoder.recoveredInputs bytes) = w.accepted inputs ++ [input] ∧ out = bytes) ∧
        ((v.after (encoder.recoveredInputs bytes)).sequence.state = .poisoned → u64Max < bytes.length ∧
          v.accepted (encoder.recoveredInputs bytes) = w.accepted inputs ∧
          ∃ behind, behind <+: (encoder.lowered input).obus ∧ Survive out ((ParsedSequence.fromParts encoder.descriptors
            ((w.accepted inputs).map encoder.lowered)).obus ++ behind))) ∧
      ((v.after (encoder.recoveredInputs bytes)).sequence.state ≠ .poisoned → parseSequence out =
        .ok (.fromParts encoder.descriptors ((v.accepted (encoder.recoveredInputs bytes)).map encoder.lowered))) := by
  have built := buildOk.mp ok
  obtain ⟨_, config, _, _, configs, _⟩ := built.oneConfig
  have struck := EncodingWriter.runStruck (EncodingWriter.startSent started) inputs
  rw [List.nil_append] at struck
  rcases struck with sent | ⟨before, input, broke, torn⟩
  · obtain ⟨units, prologue, bytes, sends, held, _⟩ := sent.sends
    obtain ⟨_, _, parsed⟩ := built.sendsFlat sends.lowers sends.descriptors sends.encodes
    obtain ⟨v, s', started', sent', held', accepted⟩ := EncodingWriter.sentAgain all sends start'
    have read : encoder.recoveredInputs (prologue ++ bytes) = w.accepted inputs :=
      wholeRecovered built configs (Encoder.lowersAre sends.lowers).2 (.inl parsed)
    refine ⟨prologue ++ bytes, v, s', prologue ++ bytes, held, started', ?_⟩
    rw [read, accepted]
    exact ⟨held', List.prefix_refl _, fun _ => ⟨rfl, rfl, sent'.unbroken⟩, fun poisoned => absurd poisoned sent.unbroken,
      fun _ => parsed⟩
  · obtain ⟨progress, units, prologue, bytes, unit, next, whole, n, sends, checked, encodes, inside, held⟩ := torn.part
    obtain ⟨behind, front, complete, survive⟩ := built.partSurvives sends checked encodes inside
    obtain ⟨_, _, parsed⟩ := built.sendsFlat sends.lowers sends.descriptors sends.encodes
    obtain ⟨v, s', started', sent', held', accepted⟩ := EncodingWriter.sentAgain all sends start'
    have sound := (Encoder.lowersAre sends.lowers).2
    have pushed := (Encoder.preflightOk.mp checked).1
    by_cases none : behind = []
    · rw [none, List.append_nil] at survive
      have read : encoder.recoveredInputs (prologue ++ bytes ++ whole.take n) = w.accepted inputs :=
        wholeRecovered built configs sound survive
      refine ⟨prologue ++ bytes ++ whole.take n, v, s', prologue ++ bytes, held, started', ?_⟩
      rw [read, accepted]
      exact ⟨held', List.prefix_append _ _, fun sound => absurd torn.poisoned sound,
        fun _ => ⟨before, input, broke, .inl rfl, fun poisoned => absurd poisoned sent'.unbroken⟩, fun _ => parsed⟩
    · have read : encoder.recoveredInputs (prologue ++ bytes ++ whole.take n) =
          w.accepted inputs ++ [receivedInput encoder.generation config.decoderConfig behind] :=
        partRecovered built configs sound pushed none front survive
      have same (part : encoder.Sound (receivedInput encoder.generation config.decoderConfig behind)) :
          receivedInput encoder.generation config.decoderConfig behind = input ∧ n = whole.length := by
        have all := built.partWhole configs pushed front part
        exact ⟨all ▸ inputReceived built configs pushed, complete all⟩
      obtain ⟨out, again⟩ := EncodingWriter.partAgain all sends checked encodes same sent'
      refine ⟨prologue ++ bytes ++ whole.take n, v, s', out, held, started', ?_⟩
      rw [read, EncodingWriter.afterSnoc, EncodingWriter.acceptedAppend, accepted]
      refine ⟨again.held, again.within, fun sound => absurd torn.poisoned sound, fun _ => ?_, fun sound' => ?_⟩
      · refine ⟨before, input, broke, ?_, fun poisoned => ?_⟩
        · refine again.again.imp (fun nothing => ?_) fun added => ⟨?_, added.2⟩
          · rw [nothing, List.append_nil]
          · rw [added.1]
        · obtain ⟨long, nothing, m, few, rfl⟩ := again.exceeded poisoned
          obtain ⟨behind', front', _, survive'⟩ := built.partSurvives sends checked encodes few
          exact ⟨long, by rw [nothing, List.append_nil], behind', front', survive'⟩
      · obtain ⟨_, out', heldOut, _, parsedOut⟩ := built.behindSent (again.sound sound')
        cases List.append_cancel_left (heldOut.symm.trans again.held)
        exact parsedOut

theorem repairedOutputPair : ∃ w s bytes v s' out, pairEncoder.start (W := Sink.limited 106) ([], false) = .ok w s ∧
    (Sink.limited 106).held (w.after pairUnits).sequence.sink = bytes ∧
    pairEncoder.start (W := Sink.buffer) [] = .ok v s' ∧
    Sink.buffer.held (v.after (pairEncoder.recoveredInputs bytes)).sequence.sink = out ∧ out <+: bytes ∧
    parseSequence out = .ok (.fromParts pairEncoder.descriptors [pairEncoder.lowered (pairUnit 1)]) := by
  obtain ⟨manifest, built⟩ := pairBuilds
  obtain ⟨w, s, started, _⟩ := pairBreaks
  obtain ⟨w', s', started', ran⟩ := @Encoder.startedOf (Sink.limited 106) pairEncoder ([], false) (fun w =>
    @Encoder.startedWith Sink.buffer pairEncoder [] fun v =>
      let inputs := pairEncoder.recoveredInputs ((Sink.limited 106).held (w.after pairUnits).sequence.sink)
      v.accepted inputs == [pairUnit 1] && (v.after inputs).sequence.state != .poisoned) (by decide +kernel)
  obtain ⟨v, t, again, ran⟩ := Encoder.startedOf ran
  cases started.symm.trans started'
  obtain ⟨bytes, _, _, out, held, started', held', within, _, _, whole⟩ :=
    repairedOutput built started pairUnits Sink.bufferAcceptsAll ([] : Bytes)
  cases again.symm.trans started'
  change _ = [] ++ bytes at held
  rw [List.nil_append] at held
  simp only [held, Bool.and_eq_true, beq_iff_eq, bne_iff_ne] at ran
  have parsed := whole ran.2
  rw [ran.1] at parsed
  exact ⟨w, s, bytes, v, t, out, started, held, started', held', within, parsed⟩

end Iamf.Wire
