import Iamf.BrokenRuns
import Iamf.ReceivedUnits

/-! What a reader makes of an output that broke off. Stopping at the first error, it has every accepted
unit as it was pushed, and at most one more of which the end is missing. -/
namespace Iamf.Wire
open Bits BitString TapeCodec

def untilError {T : Type} : List (Except Error T) → List T
  | .ok value :: items => value :: untilError items
  | _ => []

/-- The OBUs a reader yields before it fails, or all of them. -/
def recoveredSequence (bytes : Bytes) : ParsedSequence :=
  ⟨untilError ((SequenceReader.new bytes).take (bytes.length + 1))⟩

theorem untilErrorAppend {T : Type} (values : List T) (items : List (Except Error T)) :
    untilError (values.map .ok ++ items) = values ++ untilError items := by
  induction values with
  | nil => rfl
  | cons value values ih => rw [List.map_cons, List.cons_append, untilError, ih, List.cons_append]

theorem recoveredSurvive {bytes : Bytes} {obus : List SequenceObu} (survive : Survive bytes obus) :
    recoveredSequence bytes = ⟨obus⟩ := by
  refine congrArg ParsedSequence.mk ?_
  -- the reader behind these OBUs yields nothing more, or an error
  suffices stops : ∃ s, Yields (.new bytes) obus s ∧ ∀ calls, untilError (s.take calls) = [] by
    obtain ⟨s, yields, stop⟩ := stops
    obtain ⟨last, source⟩ := positionOfYields yields
    obtain ⟨octets, few, size⟩ := sourceOctets source
    rw [bytesBitsLength, List.length_take] at size
    obtain ⟨calls, more⟩ : ∃ calls, bytes.length + 1 = obus.length + calls := ⟨bytes.length + 1 - obus.length, by omega⟩
    rw [more, takeYields yields, untilErrorAppend, stop, List.append_nil]
  rcases survive with parsed | ⟨e, _, _, taken⟩
  · obtain ⟨s, yields, ready, done⟩ := sourceEnds parsed
    refine ⟨s, yields, fun calls => ?_⟩
    have ended := (nextNone ready).mpr done
    cases calls with
    | zero => rfl
    | succ calls =>
      unfold SequenceReader.take
      rcases next : s.next with ⟨_ | item, s'⟩
      · rfl
      · rw [next] at ended
        cases ended
  · obtain ⟨s, yields, failed⟩ := failsOfTake taken
    refine ⟨s, yields, fun calls => ?_⟩
    cases calls with
    | zero => rfl
    | succ calls =>
      unfold SequenceReader.take
      rw [failed]
      rfl

theorem undelimitedObus {unit : TemporalUnit} (undelimited : unit.temporalDelimiter = none) :
    unit.obus = unit.parameterBlocks.map .parameterBlock ++ unit.audioFrames.map .audioFrame := by
  unfold TemporalUnit.obus
  rw [undelimited]
  rfl

def TemporalUnit.front (unit : TemporalUnit) (count : Nat) : TemporalUnit :=
  ⟨none, unit.parameterBlocks.take count, unit.audioFrames.take (count - unit.parameterBlocks.length)⟩

theorem unitFront {unit : TemporalUnit} (undelimited : unit.temporalDelimiter = none) {front : List SequenceObu}
    (early : front <+: unit.obus) : (unit.front front.length).obus = front := by
  have cut := List.prefix_iff_eq_take.mp early
  rw [undelimitedObus undelimited, List.take_append, List.length_map, ← List.map_take, ← List.map_take] at cut
  exact (undelimitedObus rfl).trans cut.symm

namespace Grouping

theorem scanPart {g : Grouping} {ids : List UInt32} (behind : g.Behind ids) (index : Nat) {part : TemporalUnit}
    (undelimited : part.temporalDelimiter = none) (some' : part.obus ≠ []) (apart : part.substreamIds.Nodup)
    (same : ∀ id ∈ part.substreamIds, id ∈ ids) :
    (scan false index g part.obus).ranges = g.close index ∧ (scan false index g part.obus).start = some index := by
  by_cases framed : part.substreamIds = []
  · have frames : part.audioFrames = [] := List.map_eq_nil_iff.mp framed
    have obus : part.obus = part.parameterBlocks.map .parameterBlock := by
      unfold TemporalUnit.obus
      rw [undelimited, frames]
      exact List.append_nil _
    rw [obus] at some' ⊢
    cases blocks : part.parameterBlocks with
    | nil => exact absurd (by rw [blocks]; rfl) some'
    | cons block blocks =>
      have first : g.moveStart false index (.parameterBlock block) = ⟨g.close index, some index, [], false⟩ :=
        moveBehind behind index (.inl ⟨block, rfl⟩)
      simp only [List.map_cons, scan, step, recordFrame, first]
      rw [scanBlocks rfl rfl]
      exact ⟨rfl, rfl⟩
  · rw [scanUndelimitedUnit behind index undelimited framed apart same]
    exact ⟨rfl, rfl⟩

theorem scanAlike {ids : List UInt32} (some' : ids ≠ []) (apart : ids.Nodup) {units : List TemporalUnit}
    (each : ∀ unit ∈ units, unit.temporalDelimiter = none ∧ unit.substreamIds = ids) {g : Grouping}
    (behind : g.Behind ids) (index : Nat) : (scan false index g (units.flatMap (·.obus))).Behind ids := by
  induction units generalizing g index with
  | nil => exact behind
  | cons unit units ih =>
    rw [List.forall_mem_cons] at each
    rw [List.flatMap_cons, scanAppend]
    exact ih each.2 (scanOne some' apart each.1 behind index).1 _

end Grouping

theorem partFound (set : DescriptorSet) {units : List TemporalUnit} {ids : List UInt32} (some' : ids ≠ [])
    (apart : ids.Nodup) (each : ∀ unit ∈ units, unit.temporalDelimiter = none ∧ unit.substreamIds = ids)
    {part : TemporalUnit} (undelimited : part.temporalDelimiter = none) (filled : part.obus ≠ [])
    (front : part.substreamIds <+: ids) :
    (ParsedSequence.fromParts set (units ++ [part])).temporalUnitRanges.map
      (ParsedSequence.fromParts set (units ++ [part])).within = (units ++ [part]).map (·.obus) := by
  suffices ranges : (ParsedSequence.fromParts set (units ++ [part])).temporalUnitRanges =
      unitRanges set.obus.length (units ++ [part]) by
    rw [ranges]
    exact withinUnits set.obus (units ++ [part])
  have without : (units ++ [part]).any (·.temporalDelimiter.isSome) = false := by
    rw [List.any_eq_false]
    intro unit among
    rcases List.mem_append.mp among with inside | last
    · simp [(each unit inside).1]
    · simp [List.mem_singleton.mp last, undelimited]
  have start : Grouping.new.Behind ids := .inr ⟨rfl, rfl, rfl⟩
  have before := Grouping.scanAlike some' apart each start set.obus.length
  have closed := Grouping.scanUnits (P := fun g => g.Behind ids)
    (fun g index behind unit among => Grouping.scanOne some' apart (each unit among) behind index) start set.obus.length
  obtain ⟨ranges, opened⟩ := Grouping.scanPart before (set.obus.length + (units.flatMap (·.obus)).length) undelimited filled
    (apart.sublist front.sublist) fun id inside => front.subset inside
  unfold ParsedSequence.temporalUnitRanges
  rw [delimitersOfParts, without]
  change (Grouping.scan _ 0 .new (set.obus ++ (units ++ [part]).flatMap (·.obus))).close
    (set.obus ++ (units ++ [part]).flatMap (·.obus)).length = _
  rw [List.flatMap_append, List.flatMap_singleton, Grouping.scanAppend, Grouping.scanDescriptors _ _ _ (descriptorsStill set),
    Grouping.scanAppend, Nat.zero_add, Grouping.close, ranges, opened, closed, unitRangesAre, unitRangesAre,
    List.map_append, List.map_singleton, rangesSnoc, ← List.flatMap_def, List.length_append, List.length_append,
    ← Nat.add_assoc]
  rfl

/-- What there is of a unit when its end is missing: blocks, and frames behind all the blocks. The frames
carry the trimming. -/
structure FrontOf (part input : TemporalUnitInput) : Prop where
  filled : part.parameterBlocks ≠ [] ∨ part.frames ≠ []
  parameterBlocks : part.parameterBlocks <+: input.parameterBlocks
  frames : part.frames <+: input.frames
  ordered : part.frames ≠ [] → part.parameterBlocks = input.parameterBlocks ∧ part.trimming = input.trimming
  untrimmed : part.frames = [] → part.trimming = none

theorem receivedParts (generation : UInt64) (codec : DecoderConfig) {unit : TemporalUnit}
    (undelimited : unit.temporalDelimiter = none) : receivedInput generation codec unit.obus =
      ⟨unit.audioFrames.map fun obu => (⟨generation, obu.payload.substreamId.toNat⟩, frameInput codec obu.payload.payload),
        unit.parameterBlocks.map fun obu => ⟨⟨generation, obu.payload.parameterId.toNat⟩, obu.payload⟩,
        (unit.audioFrames.head?.map fun obu => trimmingOf obu.header).join⟩ := by
  unfold receivedInput
  rw [undelimitedObus undelimited]
  simp only [List.filterMap_append]
  rw [mappedNone .parameterBlock (f := receivedFrame generation codec) fun _ => rfl,
    mappedNone .audioFrame (f := receivedBlock generation) fun _ => rfl,
    mappedNone .parameterBlock (f := receivedTrimming) fun _ => rfl,
    mappedSome .audioFrame (f := receivedFrame generation codec) fun _ => rfl,
    mappedSome .parameterBlock (f := receivedBlock generation) fun _ => rfl,
    mappedSome .audioFrame (f := receivedTrimming) fun _ => rfl, List.nil_append, List.nil_append, List.append_nil,
    List.head?_map]

theorem frontReceived (generation : UInt64) (codec : DecoderConfig) {unit : TemporalUnit}
    (undelimited : unit.temporalDelimiter = none) {front : List SequenceObu} (filled : front ≠ [])
    (early : front <+: unit.obus) : FrontOf (receivedInput generation codec front)
      (receivedInput generation codec unit.obus) := by
  have same := unitFront undelimited early
  rw [← same, receivedParts generation codec undelimited, receivedParts generation codec rfl]
  have framed : (unit.front front.length).audioFrames ≠ [] → unit.parameterBlocks.length < front.length := by
    intro some'
    by_contra few
    exact some' (List.take_eq_nil_iff.mpr (.inl (by omega)))
  refine ⟨?_, (List.take_prefix _ _).map _, (List.take_prefix _ _).map _, fun some' => ?_, fun none => ?_⟩
  · by_contra empty
    simp only [ne_eq, not_or, not_not, List.map_eq_nil_iff] at empty
    refine filled ?_
    rw [← same, undelimitedObus rfl, empty.1, empty.2]
    rfl
  · have more := framed fun none => some' (List.map_eq_nil_iff.mpr none)
    constructor
    · exact congrArg (List.map _) (List.take_of_length_le more.le)
    · exact congrArg (fun frame => (Option.map _ frame).join) (List.head?_take.trans (if_neg (by omega)))
  · rw [List.map_eq_nil_iff.mp none]
    rfl

section

variable {b : EncoderBuilder} {encoder : Encoder} {manifest : IdManifest} (built : Built b encoder manifest)
  {config : CodecConfig} (configs : encoder.descriptors.codecConfigs = [config])
include built configs

theorem wholeRecovered {inputs : List TemporalUnitInput} (sound : ∀ input ∈ inputs, encoder.Sound input) {bytes : Bytes}
    (survive : Survive bytes (ParsedSequence.fromParts encoder.descriptors (inputs.map encoder.lowered)).obus) :
    (recoveredSequence bytes).receivedInputs encoder.generation = inputs := by
  rw [recoveredSurvive survive]
  exact inputsReceived built configs sound

theorem partRecovered {inputs : List TemporalUnitInput} (sound : ∀ input ∈ inputs, encoder.Sound input)
    {input : TemporalUnitInput} (pushed : encoder.Sound input) {behind : List SequenceObu} (filled : behind ≠ [])
    (front : behind <+: (encoder.lowered input).obus) {bytes : Bytes}
    (survive : Survive bytes
      ((ParsedSequence.fromParts encoder.descriptors (inputs.map encoder.lowered)).obus ++ behind)) :
    (recoveredSequence bytes).receivedInputs encoder.generation =
      inputs ++ [receivedInput encoder.generation config.decoderConfig behind] := by
  obtain ⟨some', apart, alike⟩ := loweredAlike built sound
  have undelimited : ((encoder.lowered input).front behind.length).temporalDelimiter = none := rfl
  have few : ((encoder.lowered input).front behind.length).substreamIds <+: (encoder.lowered input).substreamIds :=
    (List.take_prefix _ _).map _
  have obus := unitFront rfl front
  generalize (encoder.lowered input).front behind.length = part at undelimited few obus
  cases obus
  have same : (encoder.lowered input).substreamIds = encoder.declaredSubstreams := Encoder.loweredSubstreams pushed.count
  have parts : (ParsedSequence.fromParts encoder.descriptors (inputs.map encoder.lowered)).obus ++ part.obus =
      (ParsedSequence.fromParts encoder.descriptors (inputs.map encoder.lowered ++ [part])).obus := by
    simp only [ParsedSequence.fromParts, List.flatMap_append, List.flatMap_singleton, List.append_assoc]
  rw [parts] at survive
  rw [recoveredSurvive survive]
  refine (unitsReceived configs (partFound _ some' apart alike undelimited filled (same ▸ few))).trans ?_
  rw [List.map_append, List.map_map, List.map_singleton]
  refine congrArg (· ++ _) ?_
  exact (List.map_congr_left fun input given => inputReceived built configs (sound input given)).trans (List.map_id' _)

end

theorem acceptedRecovered {b : EncoderBuilder} {encoder : Encoder} {manifest : IdManifest}
    (ok : b.build = .ok (encoder, manifest)) {W : Sink} {start : W.State} {w : EncodingWriter W} {s : SequenceWriter W}
    (started : encoder.start start = .ok w s) (inputs : List TemporalUnitInput) : ∃ bytes,
      W.held (w.after inputs).sequence.sink = W.held start ++ bytes ∧
      ((w.after inputs).sequence.state ≠ .poisoned →
        (recoveredSequence bytes).receivedInputs encoder.generation = w.accepted inputs) ∧
      ((w.after inputs).sequence.state = .poisoned → ∃ before input, w.BrokeAt inputs before input ∧
        ((recoveredSequence bytes).receivedInputs encoder.generation = w.accepted inputs ∨ ∃ part, FrontOf part input ∧
          (recoveredSequence bytes).receivedInputs encoder.generation = w.accepted inputs ++ [part])) := by
  have built := buildOk.mp ok
  obtain ⟨_, config, _, _, configs, _⟩ := built.oneConfig
  have struck := EncodingWriter.runStruck (EncodingWriter.startSent started) inputs
  rw [List.nil_append] at struck
  rcases struck with sent | ⟨before, input, broke, torn⟩
  · obtain ⟨lowers, bytes, held, _, parsed⟩ := built.behindSent sent
    exact ⟨bytes, held, fun _ => wholeRecovered built configs (Encoder.lowersAre lowers).2 (.inl parsed),
      fun poisoned => absurd poisoned sent.unbroken⟩
  · obtain ⟨_, _, _, _, _, _, _, n, sends, checked, encodes, inside, held⟩ := torn.part
    obtain ⟨behind, front, _, survive⟩ := built.partSurvives sends checked encodes inside
    have sound := (Encoder.lowersAre sends.lowers).2
    have pushed := (Encoder.preflightOk.mp checked).1
    refine ⟨_, held, fun whole => absurd torn.poisoned whole, fun _ => ⟨before, input, broke, ?_⟩⟩
    by_cases none : behind = []
    · rw [none, List.append_nil] at survive
      exact .inl (wholeRecovered built configs sound survive)
    · have part := frontReceived encoder.generation config.decoderConfig rfl none front
      rw [inputReceived built configs pushed] at part
      exact .inr ⟨_, part, partRecovered built configs sound pushed none front survive⟩

theorem acceptedRecoveredPair : ∃ w s bytes part, pairEncoder.start (W := Sink.limited 106) ([], false) = .ok w s ∧
    (Sink.limited 106).held (w.after pairUnits).sequence.sink = bytes ∧
    (recoveredSequence bytes).receivedInputs 7 = [pairUnit 1, part] ∧ FrontOf part (pairUnit 2) ∧
    part.parameterBlocks.length = 1 ∧ part.frames.length = 1 := by
  obtain ⟨manifest, built⟩ := pairBuilds
  obtain ⟨w, s, started, broke, accepted⟩ := pairBreaks
  obtain ⟨w', s', started', sizes⟩ := @Encoder.startedOf (Sink.limited 106) pairEncoder ([], false) (fun w =>
    ((recoveredSequence ((Sink.limited 106).held (w.after pairUnits).sequence.sink)).receivedInputs 7).map
      (fun input => (input.parameterBlocks.length, input.frames.length)) == [(1, 2), (1, 1)]) (by decide +kernel)
  cases started.symm.trans started'
  obtain ⟨bytes, held, _, torn⟩ := acceptedRecovered built started pairUnits
  obtain ⟨before, input, broke', recovered⟩ := torn (broke.final ▸ broke.broken)
  obtain ⟨rfl, rfl⟩ := broke.once broke'
  change _ = [] ++ bytes at held
  rw [List.nil_append] at held
  rw [held, beq_iff_eq] at sizes
  change (recoveredSequence bytes).receivedInputs 7 = _ ∨ ∃ part, _ ∧ (recoveredSequence bytes).receivedInputs 7 = _ at recovered
  rw [accepted] at recovered
  rcases recovered with nothing | ⟨part, front, more⟩
  · rw [nothing] at sizes
    cases sizes
  · rw [more] at sizes
    obtain ⟨_, sizes⟩ := List.cons.inj sizes
    obtain ⟨one, frame⟩ := Prod.mk.inj (List.singleton_inj.mp sizes)
    exact ⟨w, s, bytes, part, started, held, more, front, one, frame⟩

end Iamf.Wire
