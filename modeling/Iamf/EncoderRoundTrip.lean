import Iamf.AcceptedUnits
import Iamf.BuiltDescriptors
import Iamf.SequenceWriterFlat

/-! What an encoder has sent, the reader gives back: the descriptors, and behind them every unit it
accepted. -/
namespace Iamf.Wire
open Bits BitString TapeCodec

theorem obuTypeForIs (id : UInt32) :
    maxImplicitSubstreamId < id ∧ obuTypeFor id = .audioFrame ∨ ∃ implicit, obuTypeFor id = .audioFrameId implicit := by
  have named : ∀ n : Fin 18, ObuType.fromValue (UInt8.ofNat (n.val + audioFrameId0Type)) = .audioFrameId n := by decide
  have frame (n : Fin 18) : n.val + audioFrameId0Type < 256 := by
    unfold audioFrameId0Type
    omega
  unfold obuTypeFor
  split_ifs with above
  · exact .inl ⟨above, rfl⟩
  · have few : id.toNat < 18 := by
      have below := UInt32.not_lt.mp above
      rw [UInt32.le_iff_toNat_le] at below
      exact Nat.lt_succ_of_le below
    exact .inr ⟨⟨id.toNat, few⟩, (if_pos (frame ⟨id.toNat, few⟩)).trans (named ⟨id.toNat, few⟩)⟩

theorem normalNew {obuType : ObuType} (plain : ¬ obuType.Aliased) (other : obuType.isAudioFrame = false) :
    Normal (.new obuType) :=
  ⟨plain, fun trim kind => (by cases kind), fun _ => other⟩

theorem normalFrame (frame : AudioFrame) (trimming : Option Trimming) : Normal (frame.intoObu trimming).header where
  plain := by
    change ¬ (obuTypeFor frame.substreamId).Aliased
    rcases obuTypeForIs frame.substreamId with ⟨_, same⟩ | ⟨implicit, same⟩ <;> rw [same] <;> exact id
  trimmed := by
    refine fun trim kind => .inr ?_
    change (obuTypeFor frame.substreamId).isAudioFrame = true
    rcases obuTypeForIs frame.substreamId with ⟨_, same⟩ | ⟨implicit, same⟩ <;> rw [same]
    · rfl
    · exact (by decide : ∀ n : Fin 18, (ObuType.audioFrameId n).isAudioFrame = true) implicit
  untrimmed := fun kind => by cases kind

theorem frameSettled (registry : ParamDefinitionRegistry) (frame : AudioFrame) (trimming : Option Trimming) :
    (SequenceObu.audioFrame (frame.intoObu trimming)).Settled registry := by
  refine .audioFrame (normalFrame frame trimming) ?_
  change obuTypeFor frame.substreamId = _ ∨ ∃ id, obuTypeFor frame.substreamId = _
  exact (obuTypeForIs frame.substreamId).imp And.right id

theorem settledEach {registry : ParamDefinitionRegistry} {obus : List SequenceObu}
    (each : ∀ obu ∈ obus, ∀ registry, obu.Settled registry) : SettledObus registry obus := by
  induction obus generalizing registry with
  | nil => exact .nil
  | cons obu obus ih =>
    rw [List.forall_mem_cons] at each
    exact .cons (each.1 registry) (ih each.2)

namespace Built

variable {b : EncoderBuilder} {encoder : Encoder} {manifest : IdManifest}

theorem descriptorsSettled (built : Built b encoder manifest) :
    ∀ obu ∈ encoder.descriptors.obus, ∀ registry, obu.Settled registry := by
  intro obu among registry
  simp only [DescriptorSet.obus, List.mem_cons, List.mem_append, List.mem_map] at among
  rcases among with rfl | ⟨config, inside, rfl⟩ | ⟨element, inside, rfl⟩ | ⟨presentation, inside, rfl⟩
  · exact .iaSequenceHeader (normalNew id rfl) rfl rfl
  · have typed := (built.configFrom ((sortedPerm _ _).mem_iff.mp inside)).1
    exact .codecConfig (normalNew id rfl) rfl ⟨rfl, .inl typed⟩
  · have sound := built.elementFrom ((sortedPerm _ _).mem_iff.mp inside)
    exact .audioElement (normalNew id rfl) rfl ⟨rfl, topologySettled sound.topology _⟩
  · exact .mixPresentation (normalNew id rfl) rfl ⟨rfl, (built.presentationFrom inside).plain⟩

theorem blockPlain (built : Built b encoder manifest) {submitted : SubmittedParameterBlock}
    {governing : RegisteredParamDefinition} (checked : encoder.BlockChecked submitted governing) :
    ∀ subblock ∈ submitted.block.subblocks, ∃ data, subblock.data = .mixGain data := by
  intro subblock among
  obtain ⟨w, written⟩ := checked.written
  have kind := (writtenGoverned written).kinds subblock among
  rw [built.governingGain checked.registered] at kind
  cases holds : subblock.data with
  | mixGain data => exact ⟨data, rfl⟩
  | _ =>
    rw [holds] at kind
    cases kind

theorem unitSettled (built : Built b encoder manifest) {input : TemporalUnitInput} (sound : encoder.Sound input) :
    ∀ obu ∈ (encoder.lowered input).obus, ∀ registry, obu.Settled registry := by
  intro obu among registry
  simp only [TemporalUnit.obus, Encoder.lowered, List.mem_append, List.mem_map, List.map_map] at among
  rcases among with ⟨_, none, _⟩ | ⟨submitted, given, rfl⟩ | ⟨entry, _, rfl⟩
  · cases none
  · obtain ⟨governing, checked⟩ := sound.blocks submitted given
    refine .parameterBlock (normalNew id rfl) rfl fun subblock inside => ?_
    obtain ⟨data, kind⟩ := built.blockPlain checked subblock inside
    rw [kind]
    trivial
  · exact frameSettled registry _ _

end Built

namespace Encoder

variable {encoder : Encoder}

theorem unitBytesFlat {definitions : ParamDefinitionRegistry} {units : List TemporalUnit} {bytes : Bytes}
    (encodes : UnitBytes definitions units bytes) :
    finishWriter (writeSequenceObus definitions (units.flatMap (·.obus))) = .ok bytes := by
  induction encodes with
  | nil => rfl
  | cons head _ ih => exact encodedUnit.mpr ⟨_, _, head.2, ih, rfl⟩

end Encoder

theorem Built.sendsFlat {b : EncoderBuilder} {encoder : Encoder} {manifest : IdManifest}
    (built : Built b encoder manifest) {inputs : List TemporalUnitInput} {units : List TemporalUnit}
    {progress : TemporalProgress} {prologue bytes : Bytes} (lowers : encoder.Lowers .initial inputs units progress)
    (descriptors : finishWriter (writeDescriptors encoder.descriptors) = .ok prologue)
    (encodes : Encoder.UnitBytes (.fromDescriptors encoder.descriptors) units bytes) :
    units = inputs.map encoder.lowered ∧
      finishWriter (writeSequenceObus .new
        (ParsedSequence.fromParts encoder.descriptors (inputs.map encoder.lowered)).obus) = .ok (prologue ++ bytes) ∧
      parseSequence (prologue ++ bytes) = .ok (.fromParts encoder.descriptors (inputs.map encoder.lowered)) := by
  obtain ⟨rfl, sound⟩ := Encoder.lowersAre lowers
  have encoded := encodedParts.mpr ⟨prologue, bytes, descriptors, Encoder.unitBytesFlat encodes, rfl⟩
  refine ⟨rfl, encoded, parseOfWrite (settledEach fun obu among => ?_) encoded⟩
  rcases List.mem_append.mp among with descriptor | unit
  · exact built.descriptorsSettled obu descriptor
  · obtain ⟨unit, lowered, inside⟩ := List.mem_flatMap.mp unit
    obtain ⟨input, given, rfl⟩ := List.mem_map.mp lowered
    exact built.unitSettled (sound input given) obu inside

theorem Built.behindSent {b : EncoderBuilder} {encoder : Encoder} {manifest : IdManifest}
    (built : Built b encoder manifest) {W : Sink} {start : W.State} {w : EncodingWriter W} {inputs : List TemporalUnitInput}
    (sent : EncodingWriter.Sent start encoder inputs w) :
    encoder.Lowers .initial inputs (inputs.map encoder.lowered) w.progress ∧
      ∃ bytes, W.held w.sequence.sink = W.held start ++ bytes ∧
        finishWriter (writeSequenceObus .new
          (ParsedSequence.fromParts encoder.descriptors (inputs.map encoder.lowered)).obus) = .ok bytes ∧
        parseSequence bytes = .ok (.fromParts encoder.descriptors (inputs.map encoder.lowered)) := by
  obtain ⟨_, ⟨units, prologue, bytes, sends, held, _⟩, _⟩ := sent
  obtain ⟨rfl, encoded, parsed⟩ := built.sendsFlat sends.lowers sends.descriptors sends.encodes
  exact ⟨sends.lowers, prologue ++ bytes, held, encoded, parsed⟩

theorem Built.sent {b : EncoderBuilder} {encoder : Encoder} {manifest : IdManifest} (built : Built b encoder manifest)
    {W : Sink} (all : W.AcceptsAll) {start : W.State} {w : EncodingWriter W} {s : SequenceWriter W}
    (started : encoder.start start = .ok w s) {inputs : List TemporalUnitInput}
    (pushed : ∀ reply ∈ w.answers inputs, reply = .ok ()) :
    encoder.Lowers .initial inputs (inputs.map encoder.lowered) (w.after inputs).progress ∧
      ∃ bytes, W.held (w.after inputs).sequence.sink = W.held start ++ bytes ∧
        finishWriter (writeSequenceObus .new
          (ParsedSequence.fromParts encoder.descriptors (inputs.map encoder.lowered)).obus) = .ok bytes ∧
        parseSequence bytes = .ok (.fromParts encoder.descriptors (inputs.map encoder.lowered)) := by
  have last := EncodingWriter.answersSent all (EncodingWriter.startSent started) pushed
  rw [List.nil_append] at last
  exact built.behindSent last

theorem encoderRoundTrip {b : EncoderBuilder} {encoder : Encoder} {manifest : IdManifest}
    (ok : b.build = .ok (encoder, manifest)) {W : Sink} (all : W.AcceptsAll) {start : W.State} {w : EncodingWriter W}
    {s : SequenceWriter W} (started : encoder.start start = .ok w s) {inputs : List TemporalUnitInput}
    (pushed : ∀ reply ∈ w.answers inputs, reply = .ok ()) : ∃ bytes units,
      W.held (w.after inputs).sequence.sink = W.held start ++ bytes ∧
      W.held (EncodingWriter.outcome EncodingWriter.finish (w.after inputs)).2.sequence.sink = W.held start ++ bytes ∧
      encoder.Lowers .initial inputs units (w.after inputs).progress ∧ units = inputs.map encoder.lowered ∧
      parseSequence bytes = .ok (.fromParts encoder.descriptors units) ∧
      ∀ (V : Sink) (_ : V.AcceptsAll) (start' : V.State), ∃ stop,
        writeParsedSequence V (.fromParts encoder.descriptors units) start' = .ok () stop ∧
          V.held stop = V.held start' ++ bytes := by
  obtain ⟨lowers, bytes, held, encoded, parsed⟩ := (buildOk.mp ok).sent all started pushed
  have first := EncodingWriter.startSent started
  have last := EncodingWriter.answersSent all first pushed
  refine ⟨bytes, _, held, (EncodingWriter.finishSent all last).2.trans held, lowers, rfl, parsed, fun V all' start' => ?_⟩
  obtain ⟨stop, written⟩ := writeParsedSequenceTaken all' start' encoded
  obtain ⟨bytes', encoded', held'⟩ := writeParsedSequenceHeld written
  cases encoded.symm.trans encoded'
  exact ⟨stop, written, held'⟩

theorem tinyAcceptsOne : tinyEncoder.Accepts [tinyUnit] := by
  obtain ⟨prologue, descriptors, small⟩ := tinyWritten
  refine ⟨[tinyLowered], _, prologue, [0x30, 4, 0, 0, 0, 0] ++ [], .cons tinyFirst .nil, descriptors,
    .cons tinyEncodes .nil, ?_⟩
  change prologue.length + 6 ≤ u64Max
  exact Nat.le_trans (Nat.add_le_add_right small 6) (by decide)

theorem tinyRuns : ∃ w s, tinyEncoder.start (W := Sink.buffer) [] = .ok w s ∧
    ∀ reply ∈ w.answers [tinyUnit], reply = .ok () := by
  obtain ⟨w, s, started⟩ := EncodingWriter.startAccepts Sink.bufferAcceptsAll ([] : Bytes) tinyAcceptsOne
  exact ⟨w, s, started, (EncodingWriter.answersOk Sink.bufferAcceptsAll (EncodingWriter.startSent started)).mpr tinyAcceptsOne⟩

theorem encoderRoundTripTiny : ∃ w s bytes, tinyEncoder.start (W := Sink.buffer) [] = .ok w s ∧
    Sink.buffer.held (w.after [tinyUnit]).sequence.sink = Sink.buffer.held [] ++ bytes ∧
    parseSequence bytes = .ok (.fromParts tinyEncoder.descriptors [tinyEncoder.lowered tinyUnit]) := by
  obtain ⟨manifest, built⟩ := tinyBuilds
  obtain ⟨w, s, started, pushed⟩ := tinyRuns
  obtain ⟨bytes, units, held, _, _, rfl, parsed, _⟩ := encoderRoundTrip built Sink.bufferAcceptsAll started pushed
  exact ⟨w, s, bytes, started, held, parsed⟩

end Iamf.Wire
