import Iamf.EncoderRoundTrip

/-! No validator objects to what an encoder has sent: every rule of the whole sequence is implied by
a check of the builder or of a push. -/
namespace Iamf.Wire
open Bits TapeCodec Keyed

theorem frameFindings (frame : AudioFrame) (trimming : Option Trimming) :
    (frame.intoObu trimming).payload.validate (frame.intoObu trimming).header.obuType = [] := by
  change findingIf (obuTypeFor frame.substreamId == .audioFrame && frame.substreamId ≤ maxImplicitSubstreamId) _ = []
  rw [findingIfNil, Bool.and_eq_false_iff]
  rcases obuTypeForIs frame.substreamId with ⟨above, _⟩ | ⟨implicit, same⟩
  · exact .inr (decide_eq_false (UInt32.not_le.mpr above))
  · rw [same]
    exact .inl rfl

theorem pairsNil {finding : UInt32 → Nat → Nat → Finding} {field : String}
    (at' : ∀ id index other, (finding id index other).location = .field field) {ids : List UInt32} (once : ids.Nodup) :
    pairFindings finding 0 ids = [] := by
  rw [← locationsNone, pairFindingsAt at', equalPairsZero.mpr once, repeatedZero]

namespace Built

variable {b : EncoderBuilder} {encoder : Encoder} {manifest : IdManifest}

theorem headerFindings (built : Built b encoder manifest) : encoder.descriptors.sequenceHeader.validate = [] := by
  obtain ⟨_, known, _⟩ := selectSequenceProfileOk built.selected
  have small := Profile.toWireKnown known
  rw [built.header]
  simp only [IaSequenceHeader.validate, IaSequenceHeader.new, bne_self_eq_false, findingIf, UInt8.lt_irrefl,
    decide_false, List.append_nil, Bool.false_eq_true, if_false, List.nil_append]
  exact if_neg (by simpa [profileCount] using small)

theorem duplicatesNone (built : Built b encoder manifest) : encoder.descriptors.duplicateFindings = [] := by
  have definitions : (ParamDefinitionRegistry.fromDescriptors encoder.descriptors).entries.map (·.definition.parameterId) =
      gainIds (encoder.descriptors.mixPresentations.flatMap (·.gains)) := by
    rw [built.registryIs, List.map_map]
    rfl
  simp only [DescriptorSet.duplicateFindings, List.append_eq_nil_iff]
  refine ⟨⟨⟨?_, ?_⟩, ?_⟩, ?_⟩
  · exact pairsNil (fun _ _ _ => rfl) (positionalNodup built.configsPositional)
  · exact pairsNil (fun _ _ _ => rfl) (positionalNodup built.elementsPositional)
  · exact pairsNil (fun _ _ _ => rfl) (positionalNodup built.presentationsPositional)
  · rw [definitions]
    exact pairsNil (fun _ _ _ => rfl) built.parametersDistinct

theorem profileResolves {presentation : MixPresentation} {elements : List AudioElement} {needed : Profile}
    (ok : presentationMinimumProfile presentation elements = .ok needed) :
    ∀ id ∈ presentation.references, ∃ element, elementById elements id = some element := by
  unfold presentationMinimumProfile at ok
  split_ifs at ok
  obtain ⟨references, resolves, _⟩ := exceptBindOk ok
  exact (resolveReferencesOk.mp resolves).1

theorem scalableNone (id : UInt32) (subMix : SubMix) {element : Option AudioElement}
    (single : ∀ v, element = some v → validateElementTopology v = .ok ()) :
    scalableLayoutFinding id subMix element = none := by
  unfold scalableLayoutFinding
  split
  · rename_i only config _ kind
    obtain ⟨v, found, kind⟩ := Option.map_eq_some_iff.mp kind
    obtain ⟨layer, layers, _⟩ := topologyLayers (single v found) kind
    simp only [layers, List.length_singleton, Nat.le_refl, decide_true, Bool.true_or, if_true]
  · rfl

structure Silent (s : ParsedSequence) (obu : SequenceObu) : Prop where
  own : obu.ownFindings = []
  references : s.referenceFindings obu = []

theorem descriptorsSilent (built : Built b encoder manifest) (units : List TemporalUnit) :
    ∀ obu ∈ encoder.descriptors.obus, Silent (.fromParts encoder.descriptors units) obu := by
  intro obu among
  simp only [DescriptorSet.obus, List.mem_cons, List.mem_append, List.mem_map] at among
  rcases among with rfl | ⟨config, inside, rfl⟩ | ⟨element, inside, rfl⟩ | ⟨presentation, inside, rfl⟩
  · exact ⟨built.headerFindings, rfl⟩
  · exact ⟨(built.configFrom ((sortedPerm _ _).mem_iff.mp inside)).2, rfl⟩
  · have inside := (sortedPerm _ _).mem_iff.mp inside
    refine ⟨(built.elementFrom inside).findings, ?_⟩
    obtain ⟨_, config, _, zero, configs, each⟩ := built.oneConfig
    change findingIf (!(ParsedSequence.fromParts encoder.descriptors units).codecConfigs.any
      (·.codecConfigId == element.codecConfigId)) _ = []
    rw [findingIfNil, anyCodecConfig, each element inside, DescriptorSet.codecConfigById, configs, zero]
    rfl
  · refine ⟨(built.presentationFrom inside).findings, ?_⟩
    obtain ⟨_, _, _, each⟩ := selectSequenceProfileOk built.selected
    obtain ⟨needed, minimum, _⟩ := each presentation inside
    have resolves := profileResolves minimum
    rw [partsReferences, List.flatMap_eq_nil_iff]
    intro subMix mixes
    rw [DescriptorSet.subMixFindings, List.append_eq_nil_iff, List.flatMap_eq_nil_iff]
    constructor
    · intro reference used
      obtain ⟨element, found⟩ := resolves reference.audioElementId
        (List.mem_flatMap.mpr ⟨subMix, mixes, List.mem_map_of_mem used⟩)
      rw [findingIfNil, found]
      rfl
    · rw [scalableNone, Option.toList_none]
      intro v found
      obtain ⟨reference, _, found⟩ := Option.bind_eq_some_iff.mp found
      exact (built.elementFrom (List.mem_of_find?_eq_some found)).topology

theorem unitSilent (built : Built b encoder manifest) (units : List TemporalUnit) {input : TemporalUnitInput}
    (sound : encoder.Sound input) :
    ∀ obu ∈ (encoder.lowered input).obus, Silent (.fromParts encoder.descriptors units) obu := by
  intro obu among
  simp only [TemporalUnit.obus, Encoder.lowered, List.mem_append, List.mem_map, List.map_map] at among
  rcases among with ⟨_, none, _⟩ | ⟨submitted, given, rfl⟩ | ⟨entry, planned, rfl⟩
  · cases none
  · obtain ⟨governing, checked⟩ := sound.blocks submitted given
    constructor
    · refine List.flatMap_eq_nil_iff.mpr fun subblock inside => ?_
      obtain ⟨data, kind⟩ := built.blockPlain checked subblock inside
      rw [kind]
      rfl
    · change findingIf ((ParsedSequence.fromParts encoder.descriptors units).census.registry.get
        submitted.block.parameterId).isNone _ = []
      rw [findingIfNil, partsRegistry, checked.registered]
      rfl
  · refine ⟨frameFindings _ _, if_pos ?_⟩
    obtain ⟨_, _, checked⟩ := sound.frames entry planned
    have declared := checked.declared
    rw [encoder.declaredSubstreamsAre, List.mem_eraseDups] at declared
    obtain ⟨element, among, used⟩ := List.mem_flatMap.mp declared
    rw [partsAudioElements, List.any_map, List.any_eq_true]
    exact ⟨element, (sortedPerm _ _).mem_iff.mpr among, List.contains_iff_mem.mpr used⟩

theorem profilesNone (built : Built b encoder manifest) (units : List TemporalUnit) :
    (ParsedSequence.fromParts encoder.descriptors units).profileFindings = [] := by
  obtain ⟨_, known, ⟨floor, floored, below⟩, each⟩ := selectSequenceProfileOk built.selected
  have some' : encoder.descriptors.mixPresentations ≠ [] := by
    intro none
    have length := (lowerEachAt built.lowering.2.2).1
    rw [none] at length
    exact built.checked.templates.presented (List.length_eq_zero_iff.mp length.symm)
  rw [partsProfileFindings, built.header, List.append_eq_nil_iff]
  exact ⟨complianceNil known some' each, limitsNil known floored below⟩

theorem clean (built : Built b encoder manifest) {inputs : List TemporalUnitInput}
    (sound : ∀ input ∈ inputs, encoder.Sound input) :
    (ParsedSequence.fromParts encoder.descriptors (inputs.map encoder.lowered)).validate = [] := by
  have silent : ∀ obu ∈ (ParsedSequence.fromParts encoder.descriptors (inputs.map encoder.lowered)).obus,
      Silent (.fromParts encoder.descriptors (inputs.map encoder.lowered)) obu := by
    intro obu among
    rcases List.mem_append.mp among with descriptor | unit
    · exact built.descriptorsSilent _ obu descriptor
    · obtain ⟨unit, lowered, inside⟩ := List.mem_flatMap.mp unit
      obtain ⟨input, given, rfl⟩ := List.mem_map.mp lowered
      exact built.unitSilent _ (sound input given) obu inside
  have none : ((ParsedSequence.fromParts encoder.descriptors (inputs.map encoder.lowered)).obus.map
      fun obu => locations obu.ownFindings).sum = 0 := by
    rw [← locationsFlatMap, locationsNone, List.flatMap_eq_nil_iff]
    exact fun obu among => (silent obu among).own
  rw [ParsedSequence.validate, List.append_eq_nil_iff, List.append_eq_nil_iff]
  refine ⟨⟨?_, List.flatMap_eq_nil_iff.mpr fun obu among => (silent obu among).references⟩, built.profilesNone _⟩
  rw [← locationsNone, partsDuplicates, none, built.duplicatesNone]
  rfl

end Built

theorem encoderValidates {b : EncoderBuilder} {encoder : Encoder} {manifest : IdManifest}
    (ok : b.build = .ok (encoder, manifest)) {W : Sink} (all : W.AcceptsAll) {start : W.State} {w : EncodingWriter W}
    {s : SequenceWriter W} (started : encoder.start start = .ok w s) {inputs : List TemporalUnitInput}
    (pushed : ∀ reply ∈ w.answers inputs, reply = .ok ()) : ∃ bytes sequence,
      W.held (w.after inputs).sequence.sink = W.held start ++ bytes ∧ parseSequence bytes = .ok sequence ∧
        sequence.validate = [] := by
  have built := buildOk.mp ok
  obtain ⟨lowers, bytes, held, _, parsed⟩ := built.sent all started pushed
  exact ⟨bytes, _, held, parsed, built.clean (Encoder.lowersAre lowers).2⟩

theorem encoderValidatesTiny : ∃ w s bytes sequence, tinyEncoder.start (W := Sink.buffer) [] = .ok w s ∧
    Sink.buffer.held (w.after [tinyUnit]).sequence.sink = Sink.buffer.held [] ++ bytes ∧
    parseSequence bytes = .ok sequence ∧ sequence.validate = [] := by
  obtain ⟨manifest, built⟩ := tinyBuilds
  obtain ⟨w, s, started, pushed⟩ := tinyRuns
  obtain ⟨bytes, sequence, held, parsed, none⟩ := encoderValidates built Sink.bufferAcceptsAll started pushed
  exact ⟨w, s, bytes, sequence, started, held, parsed, none⟩

end Iamf.Wire
