import Iamf.BuiltSubstreams
import Iamf.ValidatorsAgree

/-! What the checks have found of the templates holds of the lowered descriptors: each is read back
as it is, and no validator objects to it. -/
namespace Iamf.Wire
open Bits BitString TapeCodec

theorem channelCountPlain {layout : LoudspeakerLayout} (known : layout.channelCount.isSome = true) : layout.Plain := by
  cases layout with
  | reserved raw => cases known
  | expanded layout =>
    cases layout with
    | reserved raw => cases known
    | _ => rfl
  | _ => rfl

theorem reservedLayoutPlain {layout : Layout} (named : reservedLayout layout = false) : layout.Plain := by
  cases layout with
  | soundSystem system =>
    cases system with
    | reserved raw => cases named
    | _ => rfl
  | _ => trivial

theorem reservedModePlain {mode : HeadphonesRenderingMode} (named : mode.isReserved = false) : mode.Plain := by
  cases mode with
  | reserved raw => cases named
  | _ => rfl

theorem topologyLayers {element : AudioElement} {config : ScalableChannelLayoutConfig}
    (topology : validateElementTopology element = .ok ()) (kind : element.audioElementType = .channelBased config) :
    ∃ layer, config.layers = [layer] ∧ layer.loudspeakerLayout.Plain := by
  unfold validateElementTopology at topology
  rw [kind] at topology
  obtain ⟨_, layouts, single⟩ := exceptBindOk topology
  have known := checkEachOk.mp layouts
  match only : config.layers with
  | [] =>
    rw [only] at single
    cases single
  | _ :: _ :: _ =>
    rw [only] at single
    cases single
  | [layer] =>
    rw [only] at known
    exact ⟨layer, rfl, channelCountPlain (guardedOk.mp (known layer (by simp)))⟩

theorem topologySettled {element : AudioElement} (topology : validateElementTopology element = .ok ())
    (trailing : Bytes) : element.audioElementType.Settled trailing := by
  cases kind : element.audioElementType with
  | channelBased config =>
    obtain ⟨layer, only, plain⟩ := topologyLayers topology kind
    intro other among
    rw [only, List.mem_singleton] at among
    exact among ▸ plain
  | sceneBased config => trivial
  | reserved =>
    unfold validateElementTopology at topology
    rw [kind] at topology
    cases topology

theorem codecConfigTyped {config : CodecConfig} (ok : EncoderBuilder.validateCodecConfig config = .ok ()) :
    config.decoderConfig.Typed config.codecId ∧ config.validate = [] := by
  unfold EncoderBuilder.validateCodecConfig at ok
  cases codec : config.decoderConfig with
  | raw =>
    rw [codec] at ok
    cases ok
  | lpcm lpcm =>
    rw [codec] at ok
    obtain ⟨_, same, findings⟩ := exceptBindOk ok
    have none := EncoderBuilder.validateFindingsOk.mp findings
    refine ⟨⟨beq_iff_eq.mp (guardedOk.mp same), ?_⟩, none⟩
    simp only [CodecConfig.validate, codec, CodecConfig.validateLpcm, List.append_eq_nil_iff] at none
    obtain ⟨⟨_, ⟨flags, _⟩, _⟩, _⟩ := none
    cases named : lpcm.sampleFormatFlags with
    | reserved raw =>
      rw [named] at flags
      cases flags
    | _ => rfl
  | flac =>
    rw [codec] at ok
    obtain ⟨_, same, findings⟩ := exceptBindOk ok
    exact ⟨beq_iff_eq.mp (guardedOk.mp same), EncoderBuilder.validateFindingsOk.mp findings⟩
  | opus =>
    rw [codec] at ok
    obtain ⟨_, same, findings⟩ := exceptBindOk ok
    exact ⟨beq_iff_eq.mp (guardedOk.mp same), EncoderBuilder.validateFindingsOk.mp findings⟩
  | aacLc =>
    rw [codec] at ok
    obtain ⟨_, same, findings⟩ := exceptBindOk ok
    exact ⟨beq_iff_eq.mp (guardedOk.mp same), EncoderBuilder.validateFindingsOk.mp findings⟩

namespace MixPresentation

theorem plainAnonymous (v : MixPresentation) :
    (∀ subMix ∈ v.anonymous.subMixes, subMix.Plain) ↔ ∀ subMix ∈ v.subMixes, subMix.Plain := by
  have one (subMix : SubMix) : subMix.anonymous.Plain ↔ subMix.Plain := by
    constructor
    · exact fun plain => ⟨fun element among => plain.elements element.anonymous (List.mem_map_of_mem among), plain.layouts⟩
    · refine fun plain => ⟨fun element among => ?_, plain.layouts⟩
      obtain ⟨own, inside, rfl⟩ := List.mem_map.mp among
      exact plain.elements own inside
  simp only [anonymous, List.forall_mem_map, one]

theorem subMixAnonymous (countLabel : Nat) (subMix : SubMix) :
    validateSubMix countLabel subMix.anonymous = [] ↔ validateSubMix countLabel subMix = [] := by
  have element (v : SubMixAudioElement) : validateElement countLabel v.anonymous = [] ↔ validateElement countLabel v = [] := by
    simp only [validateElement, List.append_eq_nil_iff, findingIfNil, SubMixAudioElement.anonymous,
      MixGainParamDefinition.anonymous, MixGainParamDefinition.withId, ParamDefinition.validate]
    cases v.renderingConfig.headphonesRenderingMode <;> simp
  simp only [validateSubMix, SubMix.validate, SubMix.hasStereoLayout, List.append_eq_nil_iff, findingIfNil,
    List.flatMap_eq_nil_iff, SubMix.anonymous, List.forall_mem_map, element, List.isEmpty_map]
  rfl

theorem validateAnonymous {v u : MixPresentation} (same : v.anonymous = u.anonymous)
    (once : laterDuplicates (· == ·) v.references = []) (none : u.validate = []) : v.validate = [] := by
  simp only [anonymous, mk.injEq] at same
  obtain ⟨_, languages, localized, mixes, _⟩ := same
  have labels : v.countLabel = u.countLabel := by rw [countLabel, languages, countLabel]
  have count : v.subMixes.length = u.subMixes.length := by
    have lengths := congrArg List.length mixes
    rwa [List.length_map, List.length_map] at lengths
  simp only [validate, List.append_eq_nil_iff, validateReferences, List.map_eq_nil_iff] at none ⊢
  obtain ⟨⟨⟨annotations, single⟩, _⟩, each⟩ := none
  refine ⟨⟨⟨?_, ?_⟩, once⟩, ?_⟩
  · simp only [validateAnnotations, List.append_eq_nil_iff, findingIfNil, List.map_eq_nil_iff] at annotations ⊢
    rwa [labels, languages, localized]
  · rwa [validateSubMixCount, count]
  · rw [List.flatMap_eq_nil_iff] at each ⊢
    have anonymous : ∀ subMix ∈ v.subMixes.map (·.anonymous), validateSubMix v.countLabel subMix = [] := by
      rw [mixes, labels, List.forall_mem_map]
      exact fun subMix among => (subMixAnonymous _ subMix).mpr (each subMix among)
    exact fun subMix among => (subMixAnonymous _ subMix).mp (anonymous _ (List.mem_map_of_mem among))

end MixPresentation

theorem referencesOnce {handles : List AudioElementHandle} {generation : UInt64} {ids : List UInt32}
    (once : laterDuplicates (· == ·) handles = []) (are : ids = handleIds handles)
    (known : ∀ handle ∈ handles, handle.generation = generation ∧ handle.index ≤ u32Max) :
    laterDuplicates (· == ·) ids = [] := by
  rw [laterDuplicatesNil] at once ⊢
  rw [are, handleIds, List.pairwise_map]
  refine once.imp_of_mem fun {a b} among among' differ => ?_
  rw [beq_eq_false_iff_ne] at differ ⊢
  intro same
  obtain ⟨own, small⟩ := known a among
  obtain ⟨own', small'⟩ := known b among'
  obtain ⟨g, i⟩ := a
  obtain ⟨g', j⟩ := b
  cases own
  cases own'
  exact differ (congrArg (Handle.mk g) (positionInjective small small' same))

theorem elementAnonymous {d : AudioElementDeclaration} {index : Nat}
    (count : d.substreams.length = d.element.audioSubstreamIds.length) (none : d.element.validate = []) :
    (d.lowered index).validate = [] := by
  have length : (handleIds d.substreams).length = d.element.audioSubstreamIds.length := by
    rw [handleIds, List.length_map, count]
  have blank : (handleIds d.substreams).isEmpty = d.element.audioSubstreamIds.isEmpty := by
    rw [Bool.eq_iff_iff, List.isEmpty_iff_length_eq_zero, List.isEmpty_iff_length_eq_zero, length]
  simp only [AudioElement.validate, AudioElementDeclaration.lowered, List.append_eq_nil_iff, findingIfNil, blank,
    length] at none ⊢
  exact none

namespace Built

variable {b : EncoderBuilder} {encoder : Encoder} {manifest : IdManifest}

theorem configFrom (built : Built b encoder manifest) {config : CodecConfig}
    (among : config ∈ encoder.descriptors.codecConfigs) :
    config.decoderConfig.Typed config.codecId ∧ config.validate = [] := by
  obtain ⟨i, at'⟩ := List.mem_iff_getElem?.mp among
  obtain ⟨declared, from', _⟩ := lowerEachFrom built.lowering.1 at'
  cases at'.symm.trans (built.config from').2
  exact codecConfigTyped (built.checked.configs declared (List.mem_of_getElem? from'))

structure ElementSound (element : AudioElement) : Prop where
  topology : validateElementTopology element = .ok ()
  params : element.params = []
  findings : element.validate = []

theorem elementFrom (built : Built b encoder manifest) {element : AudioElement}
    (among : element ∈ encoder.descriptors.audioElements) : ElementSound element := by
  obtain ⟨i, at'⟩ := List.mem_iff_getElem?.mp among
  obtain ⟨d, from', _⟩ := lowerEachFrom built.lowering.2.1 at'
  cases at'.symm.trans (built.element from').2
  have declared := List.mem_of_getElem? from'
  have checked := built.checked.elements d declared
  have none := List.all_eq_true.mp built.checked.templates.params d declared
  exact ⟨(topologyLowered i checked.count).trans checked.topology, List.isEmpty_iff.mp none,
    elementAnonymous checked.count checked.findings⟩

structure PresentationSound (presentation : MixPresentation) : Prop where
  plain : ∀ subMix ∈ presentation.subMixes, subMix.Plain
  findings : presentation.validate = []

theorem presentationPlain {d : MixPresentationDeclaration} (checked : b.PresentationChecked d) :
    ∀ subMix ∈ d.presentation.subMixes, subMix.Plain := by
  intro subMix among
  refine ⟨fun element inside => reservedModePlain ?_, fun layout inside => reservedLayoutPlain ?_⟩
  · have none := checked.headphones
    rw [List.any_eq_false] at none
    exact Bool.eq_false_iff.mpr (none element (List.mem_flatMap.mpr ⟨subMix, among, inside⟩))
  · obtain ⟨_, named, _⟩ := exceptBindOk (checked.layouts layout (List.mem_flatMap.mpr ⟨subMix, among, inside⟩))
    simpa using guardedOk.mp named

theorem presentationFrom (built : Built b encoder manifest) {presentation : MixPresentation}
    (among : presentation ∈ encoder.descriptors.mixPresentations) : PresentationSound presentation := by
  obtain ⟨i, at'⟩ := List.mem_iff_getElem?.mp among
  obtain ⟨resolved, from', _⟩ := lowerEachFrom built.lowering.2.2 at'
  have checked := built.checked.presentations resolved (List.mem_of_getElem? from')
  rw [b.resolvedAt] at from'
  obtain ⟨d, declared, rfl⟩ := Option.map_eq_some_iff.mp from'
  obtain ⟨other, here, lowered⟩ := built.presentation declared
  cases at'.symm.trans here
  have few := built.manifestIs.2.1.2
  have once := referencesOnce checked.distinct lowered.references fun handle used => by
    obtain ⟨own, inside⟩ := built.referenceKnown (List.mem_of_getElem? declared) used
    change handle.index < b.audioElements.length at inside
    exact ⟨own, by omega⟩
  obtain ⟨subMixes, references, findings⟩ := checked.findings
  refine ⟨?_, MixPresentation.validateAnonymous ?_ once findings⟩
  · rw [← MixPresentation.plainAnonymous, lowered.same, MixPresentation.plainAnonymous]
    exact presentationPlain checked
  · rw [lowered.same]
    simp only [MixPresentation.anonymous, lowerSubMixReferencesSame references]

theorem observeNoParams {elements : List AudioElement} (none : ∀ element ∈ elements, element.params = [])
    (registry : ParamDefinitionRegistry) :
    elements.foldl ParamDefinitionRegistry.observeAudioElement registry = registry := by
  induction elements generalizing registry with
  | nil => rfl
  | cons element elements ih =>
    rw [List.forall_mem_cons] at none
    rw [List.foldl_cons, ih none.2, ParamDefinitionRegistry.observeAudioElement, none.1]
    rfl

theorem observeMixes (presentations : List MixPresentation) (registry : ParamDefinitionRegistry) :
    (presentations.foldl ParamDefinitionRegistry.observeMixPresentation registry).entries =
      registry.entries ++ (presentations.flatMap (·.gains)).map gainEntry := by
  induction presentations generalizing registry with
  | nil => exact (List.append_nil _).symm
  | cons presentation presentations ih =>
    rw [List.foldl_cons, ih, observeMixAppends, List.flatMap_cons, List.map_append, List.append_assoc]

theorem registryIs (built : Built b encoder manifest) : (ParamDefinitionRegistry.fromDescriptors encoder.descriptors).entries =
    (encoder.descriptors.mixPresentations.flatMap (·.gains)).map gainEntry := by
  have none : ∀ element ∈ encoder.descriptors.sortedElements, element.params = [] := by
    intro element among
    exact (built.elementFrom ((sortedPerm _ _).mem_iff.mp among)).params
  rw [ParamDefinitionRegistry.fromDescriptors, observeNoParams none, observeMixes]
  rfl

theorem governingGain (built : Built b encoder manifest) {id : UInt32} {governing : RegisteredParamDefinition}
    (found : (ParamDefinitionRegistry.fromDescriptors encoder.descriptors).get id = some governing) :
    governing.context = .mixGain := by
  have among := List.mem_of_find?_eq_some found
  rw [built.registryIs] at among
  obtain ⟨gain, _, rfl⟩ := List.mem_map.mp among
  rfl

end Built

end Iamf.Wire
