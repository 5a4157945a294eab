import Iamf.EncoderRoundTrip
import Iamf.TemporalUnitRanges

/-! A reader of nothing but the bytes has the units an encoder accepted: no unit lost, altered, doubled or
moved, whatever else was pushed between them. -/
namespace Iamf.Wire
open Bits BitString TapeCodec

def trimmingOf (header : ObuHeader) : Option Trimming :=
  match header.typeSpecific with
  | .trimming trimming => trimming
  | .reserved => none

def configIn : SequenceObu → Option CodecConfig
  | .codecConfig obu => some obu.payload
  | _ => none

def frameInput : DecoderConfig → Bytes → FrameInput
  | .flac _, payload => .flac payload
  | .opus _, payload => .opus payload
  | .aacLc _, payload => .aacLc payload
  | _, payload => .lpcm payload

def receivedFrame (generation : UInt64) (codec : DecoderConfig) : SequenceObu → Option (SubstreamHandle × FrameInput)
  | .audioFrame obu => some (⟨generation, obu.payload.substreamId.toNat⟩, frameInput codec obu.payload.payload)
  | _ => none

def receivedBlock (generation : UInt64) : SequenceObu → Option SubmittedParameterBlock
  | .parameterBlock obu => some ⟨⟨generation, obu.payload.parameterId.toNat⟩, obu.payload⟩
  | _ => none

def receivedTrimming : SequenceObu → Option (Option Trimming)
  | .audioFrame obu => some (trimmingOf obu.header)
  | _ => none

/-- What the OBUs of one unit were pushed as, in the terms of the encoder of that generation. -/
def receivedInput (generation : UInt64) (codec : DecoderConfig) (obus : List SequenceObu) : TemporalUnitInput :=
  ⟨obus.filterMap (receivedFrame generation codec), obus.filterMap (receivedBlock generation),
    (obus.filterMap receivedTrimming).head?.join⟩

def ParsedSequence.receivedInputs (s : ParsedSequence) (generation : UInt64) : List TemporalUnitInput :=
  (s.obus.filterMap configIn).head?.elim [] fun config =>
    (s.temporalUnitRanges.map s.within).map (receivedInput generation config.decoderConfig)

theorem partsOf {T : Type} {f : SequenceObu → Option T} (silent : ∀ unit : TemporalUnit, ∀ obu ∈ unit.obus, f obu = none)
    (set : DescriptorSet) (units : List TemporalUnit) :
    (ParsedSequence.fromParts set units).obus.filterMap f = set.obus.filterMap f := by
  have none : (units.flatMap (·.obus)).filterMap f = [] := by
    refine List.filterMap_eq_nil_iff.mpr fun obu among => ?_
    obtain ⟨unit, _, inside⟩ := List.mem_flatMap.mp among
    exact silent unit obu inside
  unfold ParsedSequence.fromParts
  rw [List.filterMap_append, none, List.append_nil]

theorem mappedNone {S T : Type} (c : S → SequenceObu) {f : SequenceObu → Option T} (none : ∀ v, f (c v) = none)
    (vs : List S) : (vs.map c).filterMap f = [] := by
  rw [List.filterMap_map]
  exact List.filterMap_eq_nil_iff.mpr fun v _ => none v

theorem mappedSome {S T : Type} (c : S → SequenceObu) {f : SequenceObu → Option T} {g : S → T}
    (each : ∀ v, f (c v) = some (g v)) (vs : List S) : (vs.map c).filterMap f = vs.map g := by
  rw [List.filterMap_map, ← List.filterMap_eq_map]
  exact List.filterMap_congr fun v _ => each v

open SequenceObu in
theorem configsRead (set : DescriptorSet) (units : List TemporalUnit) :
    (ParsedSequence.fromParts set units).obus.filterMap configIn =
      set.sortedConfigs.map fun config => { config with trailing := [] } := by
  have silent : ∀ unit : TemporalUnit, ∀ obu ∈ unit.obus, configIn obu = none := by
    intro unit obu among
    simp only [TemporalUnit.obus, List.mem_append, List.mem_map] at among
    rcases among with ⟨_, _, rfl⟩ | ⟨_, _, rfl⟩ | ⟨_, _, rfl⟩ <;> rfl
  rw [partsOf silent, DescriptorSet.obus, List.filterMap_cons_none rfl, List.filterMap_append, List.filterMap_append,
    mappedNone ofAudioElement fun _ => rfl, mappedNone ofMixPresentation fun _ => rfl, List.append_nil,
    List.append_nil]
  exact mappedSome ofCodecConfig (f := configIn) (fun _ => rfl) _

theorem Grouping.scanOne {ids : List UInt32} (some' : ids ≠ []) (apart : ids.Nodup) {unit : TemporalUnit}
    (alike : unit.temporalDelimiter = none ∧ unit.substreamIds = ids) {g : Grouping} (behind : g.Behind ids) (index : Nat) :
    (scan false index g unit.obus).Behind ids ∧ (scan false index g unit.obus).ranges = g.close index ∧
      (scan false index g unit.obus).start = some index := by
  obtain ⟨none, same⟩ := alike
  rw [scanUndelimitedUnit behind index none (same ▸ some') (same ▸ apart) fun id inside => same ▸ inside, same]
  exact ⟨.inl ⟨rfl, rfl, fun _ inside => inside⟩, rfl, rfl⟩

theorem unitsFound (set : DescriptorSet) {units : List TemporalUnit} {ids : List UInt32} (some' : ids ≠ [])
    (apart : ids.Nodup) (each : ∀ unit ∈ units, unit.temporalDelimiter = none ∧ unit.substreamIds = ids) :
    (ParsedSequence.fromParts set units).temporalUnitRanges.map (ParsedSequence.fromParts set units).within =
      units.map (·.obus) := by
  have undelimited : units.any (·.temporalDelimiter.isSome) = false := by
    rw [List.any_eq_false]
    intro unit among
    simp [(each unit among).1]
  suffices ranges : (ParsedSequence.fromParts set units).temporalUnitRanges = unitRanges set.obus.length units by
    rw [ranges]
    exact withinUnits set.obus units
  unfold ParsedSequence.temporalUnitRanges
  rw [delimitersOfParts, undelimited]
  change (Grouping.scan _ 0 .new (set.obus ++ units.flatMap (·.obus))).close
    (set.obus ++ units.flatMap (·.obus)).length = _
  rw [Grouping.scanAppend, Grouping.scanDescriptors _ _ _ (descriptorsStill set), List.length_append, Nat.zero_add]
  exact Grouping.scanUnits (P := fun g => g.Behind ids)
    (fun g index behind unit among => Grouping.scanOne some' apart (each unit among) behind index) (.inr ⟨rfl, rfl, rfl⟩) _

theorem frameInputOf {codec : DecoderConfig} {frame : FrameInput} (same : SameCodec codec frame) :
    frameInput codec (framePayload frame) = frame := by
  cases same <;> rfl

theorem blockReceived {encoder : Encoder} {input : TemporalUnitInput} (sound : encoder.Sound input)
    {submitted : SubmittedParameterBlock} (given : submitted ∈ input.parameterBlocks) :
    (⟨⟨encoder.generation, submitted.block.parameterId.toNat⟩, submitted.block⟩ : SubmittedParameterBlock) = submitted := by
  obtain ⟨governing, checked⟩ := sound.blocks submitted given
  rw [← checked.handle]

section

variable {b : EncoderBuilder} {encoder : Encoder} {manifest : IdManifest} (built : Built b encoder manifest)
  {config : CodecConfig} (configs : encoder.descriptors.codecConfigs = [config])
include built configs

theorem entryReceived {input : TemporalUnitInput} (sound : encoder.Sound input)
    {entry : (SubstreamHandle × FrameInput) × UInt32} (among : entry ∈ input.frames.zip encoder.declaredSubstreams) :
    (⟨encoder.generation, entry.2.toNat⟩, frameInput config.decoderConfig (framePayload entry.1.2)) = entry.1 := by
  obtain ⟨config', channels, checked⟩ := sound.frames entry among
  cases built.declaredConfig configs checked.declared checked.plan
  rw [frameInputOf (frameCodec checked.frame), ← checked.handle]

theorem inputReceived {input : TemporalUnitInput} (sound : encoder.Sound input) :
    receivedInput encoder.generation config.decoderConfig (encoder.lowered input).obus = input := by
  let frame := fun entry : (SubstreamHandle × FrameInput) × UInt32 =>
    AudioFrame.intoObu ⟨entry.2, framePayload entry.1.2⟩ input.trimming
  let block := fun submitted : SubmittedParameterBlock => Obu.new (.new .parameterBlock) submitted.block
  have obus : (encoder.lowered input).obus = (input.parameterBlocks.map block).map .parameterBlock ++
      ((input.frames.zip encoder.declaredSubstreams).map frame).map .audioFrame := rfl
  have frames : (encoder.lowered input).obus.filterMap (receivedFrame encoder.generation config.decoderConfig) =
      input.frames := by
    rw [obus, List.filterMap_append, mappedNone .parameterBlock fun _ => rfl, List.nil_append,
      mappedSome .audioFrame (f := receivedFrame encoder.generation config.decoderConfig) fun _ => rfl, List.map_map]
    refine (List.map_congr_left fun entry among => entryReceived built configs sound among).trans ?_
    exact List.map_fst_zip sound.count.le
  have blocks : (encoder.lowered input).obus.filterMap (receivedBlock encoder.generation) = input.parameterBlocks := by
    rw [obus, List.filterMap_append, mappedNone .audioFrame fun _ => rfl, List.append_nil,
      mappedSome .parameterBlock (f := receivedBlock encoder.generation) fun _ => rfl, List.map_map]
    refine (List.map_congr_left fun submitted given => blockReceived sound given).trans ?_
    exact List.map_id' _
  have trimming : (encoder.lowered input).obus.filterMap receivedTrimming =
      (input.frames.zip encoder.declaredSubstreams).map fun _ => input.trimming := by
    rw [obus, List.filterMap_append, mappedNone .parameterBlock fun _ => rfl, List.nil_append,
      mappedSome .audioFrame (f := receivedTrimming) fun _ => rfl, List.map_map]
    rfl
  have entries : 0 < (input.frames.zip encoder.declaredSubstreams).length := by
    rw [List.length_zip, sound.count, Nat.min_self]
    exact List.length_pos_iff.mpr built.hasSubstream
  obtain ⟨entry, others, split⟩ := List.exists_cons_of_length_pos entries
  unfold receivedInput
  rw [frames, blocks, trimming, split]
  rfl

omit built in
theorem unitsReceived {units : List TemporalUnit}
    (found : (ParsedSequence.fromParts encoder.descriptors units).temporalUnitRanges.map
      (ParsedSequence.fromParts encoder.descriptors units).within = units.map (·.obus)) :
    (ParsedSequence.fromParts encoder.descriptors units).receivedInputs encoder.generation =
      units.map fun unit => receivedInput encoder.generation config.decoderConfig unit.obus := by
  have sorted : encoder.descriptors.sortedConfigs = [config] := by
    unfold DescriptorSet.sortedConfigs sortedById
    rw [configs, List.mergeSort_singleton]
  unfold ParsedSequence.receivedInputs
  rw [configsRead, sorted, found]
  change (units.map (·.obus)).map (receivedInput encoder.generation config.decoderConfig) = _
  rw [List.map_map]
  rfl

omit configs in
theorem loweredAlike {inputs : List TemporalUnitInput} (sound : ∀ input ∈ inputs, encoder.Sound input) :
    encoder.declaredSubstreams ≠ [] ∧ encoder.declaredSubstreams.Nodup ∧
      ∀ unit ∈ inputs.map encoder.lowered, unit.temporalDelimiter = none ∧
        unit.substreamIds = encoder.declaredSubstreams := by
  refine ⟨built.hasSubstream, ?_, fun unit among => ?_⟩
  · rw [encoder.declaredSubstreamsAre]
    exact eraseDupsNodup _
  · obtain ⟨input, given, rfl⟩ := List.mem_map.mp among
    exact ⟨rfl, Encoder.loweredSubstreams (sound input given).count⟩

theorem inputsReceived {inputs : List TemporalUnitInput} (sound : ∀ input ∈ inputs, encoder.Sound input) :
    (ParsedSequence.fromParts encoder.descriptors (inputs.map encoder.lowered)).receivedInputs encoder.generation =
      inputs := by
  obtain ⟨some', apart, alike⟩ := loweredAlike built sound
  rw [unitsReceived configs (unitsFound _ some' apart alike), List.map_map]
  exact (List.map_congr_left fun input given => inputReceived built configs (sound input given)).trans (List.map_id' _)

end

theorem acceptedReceived {b : EncoderBuilder} {encoder : Encoder} {manifest : IdManifest}
    (ok : b.build = .ok (encoder, manifest)) {W : Sink} (all : W.AcceptsAll) {start : W.State} {w : EncodingWriter W}
    {s : SequenceWriter W} (started : encoder.start start = .ok w s) {inputs : List TemporalUnitInput}
    (whole : (w.after inputs).sequence.state ≠ .poisoned) : ∃ bytes parsed,
      W.held (w.after inputs).sequence.sink = W.held start ++ bytes ∧ parseSequence bytes = .ok parsed ∧
      parsed.receivedInputs encoder.generation = w.accepted inputs := by
  have built := buildOk.mp ok
  obtain ⟨_, config, _, _, configs, _⟩ := built.oneConfig
  have sent := ((EncodingWriter.runSent all (EncodingWriter.startSent started) inputs).2.resolve_right fun broken =>
    whole broken.1)
  obtain ⟨lowers, bytes, held, _, parsed⟩ := built.behindSent sent
  exact ⟨bytes, _, held, parsed, inputsReceived built configs (Encoder.lowersAre lowers).2⟩

theorem acceptedReceivedTiny : ∃ w s bytes parsed, tinyEncoder.start (W := Sink.buffer) [] = .ok w s ∧
    Sink.buffer.held (w.after [⟨[], [], none⟩, tinyUnit]).sequence.sink = Sink.buffer.held [] ++ bytes ∧
    parseSequence bytes = .ok parsed ∧
    parsed.receivedInputs tinyEncoder.generation = w.accepted [⟨[], [], none⟩, tinyUnit] := by
  obtain ⟨manifest, built⟩ := tinyBuilds
  obtain ⟨w, s, started, pushed⟩ := tinyRuns
  have first := EncodingWriter.startSent started
  have sent := EncodingWriter.answersSent Sink.bufferAcceptsAll first pushed
  have sound : w.sequence.state ≠ .poisoned := by
    rw [first.state]
    nofun
  have short : w.encoder.preflight w.progress ⟨[], [], none⟩ = .error (temporalInput .missingTemporalSubstream "frames") := by
    rw [first.same]
    rfl
  have whole : (w.after [⟨[], [], none⟩, tinyUnit]).sequence.state ≠ .poisoned := by
    rw [EncodingWriter.after, EncodingWriter.pushedOutcome (.refused sound short), sent.state]
    nofun
  obtain ⟨bytes, parsed, held, read, received⟩ := acceptedReceived built Sink.bufferAcceptsAll started whole
  exact ⟨w, s, bytes, parsed, started, held, read, received⟩

end Iamf.Wire
