import Iamf.EncoderBuilder
import Iamf.ParameterBlockCodec

/-! What a builder refuses. The checks look at the templates, so none of them may depend on a
placeholder id. -/
namespace Iamf.Wire
open Bits BitString TapeCodec

def u32CheckedAdd (a b : UInt32) : Option UInt32 := if a.toNat + b.toNat ≤ u32Max then some (a + b) else none

def invalid (field : String) : Error := ⟨.invalidDescriptorReference, .field field⟩

def allocationError : Error := ⟨.wireIdAllocationExhausted, .unlocated⟩

def wireId (index : Nat) : Except Error UInt32 := u32TryFrom index allocationError

def validateFindings (findings : List Finding) : Except Error Unit := guarded findings.isEmpty (invalid "descriptors")

def checkEach {T : Type} (check : T → Except Error Unit) : List T → Except Error Unit
  | [] => .ok ()
  | item :: items => do
    check item
    checkEach check items

def validateDistinctIds (field : String) (seen : List UInt32) : List UInt32 → Except Error Unit
  | [] => .ok ()
  | id :: ids => do
    guarded (!seen.contains id) ⟨.duplicateDeclaration, .field field⟩
    validateDistinctIds field (seen ++ [id]) ids

def validateImplicitIds (ids : List (Option UInt32)) (field : String) : Except Error Unit :=
  validateDistinctIds field [] (ids.filterMap id)

def opusOutputSampleRate : UInt32 := 48000

def outputSampleRate (config : CodecConfig) : Option UInt32 :=
  match config.decoderConfig with
  | .lpcm lpcm => some lpcm.sampleRate
  | .flac flac => some flac.sampleRate
  | .opus _ => some opusOutputSampleRate
  | .aacLc aacLc => aacLcOutputSampleRate aacLc.samplingFrequencyIndex
  | .raw .. => none

def substreamChannels (element : AudioElement) (position : Nat) : UInt8 :=
  match element.audioElementType with
  | .channelBased config =>
    if config.layers.head?.any fun layer => position < layer.coupledSubstreamCount.toNat then 2 else 1
  | _ => 1

def validateLayerLayout (layer : ChannelAudioLayerConfig) : Except Error Unit :=
  guarded layer.loudspeakerLayout.channelCount.isSome ⟨.unsupportedLayout, .field "loudspeaker_layout"⟩

def validateSingleLayer (layer : ChannelAudioLayerConfig) : Except Error Unit := do
  guarded (!layer.reconGainIsPresent) ⟨.unsupportedParameterData, .field "recon_gain_is_present"⟩
  match layer.loudspeakerLayout.singleLayerSubstreamCounts with
  | none => .error ⟨.unsupportedLayout, .field "loudspeaker_layout"⟩
  | some (requiredSubstreams, requiredCoupled) => do
    guarded (layer.coupledSubstreamCount == requiredCoupled)
      ⟨.coupledSubstreamCountMismatch, .field "coupled_substream_count"⟩
    guarded (layer.substreamCount == requiredSubstreams) ⟨.channelCountMismatch, .field "substream_count"⟩

def monoConfigSound (config : AmbisonicsMonoConfig) (substreams : Nat) : Bool :=
  (List.range' 1 15).any (fun root => root * root == config.outputChannelCount.toNat) &&
  config.substreamCount != 0 &&
  config.substreamCount ≤ config.outputChannelCount &&
  config.substreamCount.toNat == substreams &&
  config.channelMapping.length == config.outputChannelCount.toNat &&
  config.channelMapping.all (fun mapping => mapping == 255 || mapping < config.substreamCount) &&
  (List.range config.substreamCount.toNat).all fun stream => config.channelMapping.contains (UInt8.ofNat stream)

def validateElementTopology (element : AudioElement) : Except Error Unit :=
  match element.audioElementType with
  | .channelBased config => do
    checkEach validateLayerLayout config.layers
    match config.layers with
    | [layer] => validateSingleLayer layer
    | _ => .error (invalid "num_layers")
  | .sceneBased (.mono config) =>
    guarded (monoConfigSound config element.audioSubstreamIds.length) (invalid "ambisonics_mono_config")
  | _ => .error (invalid "audio_element_type")

def subblocksFill (fields : DurationFields) : Bool :=
  if fields.constantSubblockDuration = 0 then
    !fields.subblockDurations.isEmpty && !fields.subblockDurations.contains 0 &&
      fields.subblockDurations.foldlM u32CheckedAdd 0 == some fields.duration
  else fields.constantSubblockDuration ≤ fields.duration && fields.subblockDurations.isEmpty

def validateParameterDefinition (definition : ParamDefinition) : Except Error Unit := do
  guarded (definition.parameterRate != 0) (invalid "parameter_rate")
  guarded (definition.durationFields.all fun fields => fields.duration != 0 && subblocksFill fields)
    ⟨.subblockDurationMismatch, .field "duration_fields"⟩

def expectedCodecId : DecoderConfig → Option CodecId
  | .lpcm _ => some codecIdLpcm
  | .flac _ => some codecIdFlac
  | .opus _ => some codecIdOpus
  | .aacLc _ => some codecIdAac
  | .raw .. => none

def lowerReferences : List SubMixAudioElement → List AudioElementHandle → Except Error (List SubMixAudioElement)
  | element :: elements, handle :: handles => do
    let id ← wireId handle.index
    let others ← lowerReferences elements handles
    .ok ({ element with audioElementId := id } :: others)
  | elements, _ => .ok elements

def lowerSubMixReferences : List SubMix → List AudioElementHandle → Except Error (List SubMix)
  | [], _ => .ok []
  | subMix :: subMixes, handles => do
    let elements ← lowerReferences subMix.elements handles
    let others ← lowerSubMixReferences subMixes (handles.drop subMix.elements.length)
    .ok ({ subMix with elements := elements } :: others)

def reservedLayout : Layout → Bool
  | .reserved _ | .soundSystem (.reserved _) => true
  | _ => false

def validateLoudnessLayout (layout : LayoutWithLoudness) : Except Error Unit := do
  guarded (!reservedLayout layout.layout) ⟨.unsupportedLayout, .field "sub_mix.layouts"⟩
  guarded (layout.loudness.extension.all fun extension =>
      !(extension.infoTypeBits &&& 0xfc == 0 || extension.infoTypeBits &&& 0x03 != 0))
    (invalid "loudness.extension.info_type_bits")

def repeatsAnchor (layout : LayoutWithLoudness) : Bool :=
  layout.loudness.anchored.any fun anchored =>
    !(laterDuplicates (fun a b => a.anchorElement == b.anchorElement) anchored.anchorElements).isEmpty

namespace EncoderBuilder

def codecConfig (b : EncoderBuilder) (handle : CodecConfigHandle) : Except Error CodecConfig :=
  if handle.generation ≠ b.generation then .error ⟨.unknownCodecConfigHandle, .unlocated⟩
  else (b.codecConfigs[handle.index]?).elim (.error ⟨.unknownCodecConfigHandle, .unlocated⟩) .ok

def audioElement (b : EncoderBuilder) (handle : AudioElementHandle) : Except Error AudioElementDeclaration :=
  if handle.generation ≠ b.generation then .error ⟨.unknownAudioElementHandle, .unlocated⟩
  else (b.audioElements[handle.index]?).elim (.error ⟨.unknownAudioElementHandle, .unlocated⟩) .ok

def validateParameter (parameter : ParameterDeclaration) : Except Error Unit := do
  validateParameterDefinition parameter.gain.definition
  validateFindings parameter.gain.definition.validate

def validateCodecConfig (config : CodecConfig) : Except Error Unit :=
  match expectedCodecId config.decoderConfig with
  | none => .error (invalid "decoder_config")
  | some expected => do
    guarded (config.codecId == expected) (invalid "codec_id")
    validateFindings config.validate

def validateParameterTiming (config : CodecConfig) (rate : UInt32) (parameter : ParameterDeclaration) :
    Except Error Unit := do
  guarded (parameter.gain.definition.parameterRate == rate) ⟨.parameterRateMismatch, .field "parameter_rate"⟩
  guarded (parameter.gain.definition.durationFields.all fun fields => fields.duration == config.numSamplesPerFrame)
    ⟨.parameterBlockDurationMismatch, .field "duration_fields"⟩

def validateTiming (b : EncoderBuilder) : Except Error Unit :=
  match b.codecConfigs.head? with
  | none => .ok ()
  | some config =>
    match outputSampleRate config with
    | none => .error (invalid "decoder_config")
    | some rate => checkEach (validateParameterTiming config rate) b.parameters

def sharedAlike (b : EncoderBuilder) (declaration : AudioElementDeclaration) (handle : SubstreamHandle)
    (position : Nat) : Bool :=
  b.audioElements.all fun other => other.substreams.zipIdx.all fun (otherHandle, otherPosition) =>
    otherHandle != handle || (other.codecConfig == declaration.codecConfig &&
      substreamChannels other.element otherPosition == substreamChannels declaration.element position)

def validateSubstream (b : EncoderBuilder) (declaration : AudioElementDeclaration) (use : SubstreamHandle × Nat) :
    Except Error Unit := do
  guarded (use.1.generation == b.generation && b.substreams[use.1.index]?.isSome) ⟨.unknownSubstreamHandle, .unlocated⟩
  guarded (!(declaration.substreams.take use.2).contains use.1) ⟨.duplicateDeclaration, .field "audio_substream_id"⟩
  guarded (b.sharedAlike declaration use.1 use.2) (invalid "shared_substream")

def validateAudioElement (b : EncoderBuilder) (declaration : AudioElementDeclaration) : Except Error Unit := do
  let _ ← b.codecConfig declaration.codecConfig
  validateElementTopology declaration.element
  validateFindings declaration.element.validate
  guarded (declaration.substreams.length == declaration.element.audioSubstreamIds.length) (invalid "audio_substream_ids")
  checkEach (b.validateSubstream declaration) declaration.substreams.zipIdx

def validateReference (b : EncoderBuilder) (handle : AudioElementHandle) : Except Error Unit := do
  let _ ← b.audioElement handle
  .ok ()

def validateMixPresentation (b : EncoderBuilder) (declaration : MixPresentationDeclaration) : Except Error Unit := do
  let presentation := declaration.presentation
  let elements := presentation.subMixes.flatMap (·.elements)
  let layouts := presentation.subMixes.flatMap (·.layouts)
  guarded ((presentation.subMixes.map (·.elements.length)).sum == declaration.audioElements.length)
    (invalid "mix_presentation.audio_elements")
  checkEach b.validateReference declaration.audioElements
  guarded (presentation.subMixes.length == 1) ⟨.subMixCountNotOne, .field "num_sub_mixes"⟩
  guarded (!elements.any (·.renderingConfig.headphonesRenderingMode.isReserved))
    ⟨.reservedHeadphonesRenderingMode, .field "headphones_rendering_mode"⟩
  guarded (laterDuplicates (· == ·) declaration.audioElements).isEmpty
    ⟨.duplicateMixPresentationAudioElement, .field "mix_presentation.audio_elements"⟩
  guarded (laterDuplicates eqIgnoreAsciiCase presentation.annotationsLanguage).isEmpty
    ⟨.duplicateAnnotationsLanguage, .field "annotations_language"⟩
  guarded (presentation.annotationsLanguage.all isWellFormedLanguageTag)
    ⟨.annotationsLanguageNotWellFormed, .field "annotations_language"⟩
  guarded (!layouts.any repeatsAnchor) ⟨.duplicateAnchorElement, .field "anchored_loudness.anchor_element"⟩
  let subMixes ← lowerSubMixReferences presentation.subMixes declaration.audioElements
  validateFindings { presentation with subMixes := subMixes }.validate
  checkEach validateLoudnessLayout layouts

def validateUsed (b : EncoderBuilder) (index : Nat) : Except Error Unit :=
  guarded (b.audioElements.any fun declaration => declaration.substreams.any fun handle => handle.index == index)
    (invalid "unused_substream")

def templates (b : EncoderBuilder) : DescriptorSet where
  sequenceHeader := .new 0 0
  codecConfigs := b.codecConfigs
  audioElements := b.audioElements.map (·.element)
  mixPresentations := b.mixPresentations.map (·.presentation)

-- every encoder is run once on the templates, into a buffer that is dropped
def validateTemplates (b : EncoderBuilder) : Except Error Unit := do
  checkEach (fun entry => validateParameterDefinition entry.definition)
    (ParamDefinitionRegistry.fromDescriptors b.templates).entries
  guarded (b.audioElements.all (·.element.params.isEmpty)) ⟨.unsupportedParameterData, .field "audio_element_params"⟩
  let _ ← runWriter (writeDescriptors b.templates)
  guarded (!b.mixPresentations.isEmpty) ⟨.noMixPresentation, .field "mix_presentations"⟩

def validateDeclarations (b : EncoderBuilder) : Except Error Unit := do
  validateImplicitIds b.substreams "audio_substream_id"
  validateImplicitIds (b.parameters.map (·.implicitId)) "parameter_id"
  checkEach validateParameter b.parameters
  checkEach validateCodecConfig b.codecConfigs
  guarded (b.codecConfigs.length ≤ 1) ⟨.multipleCodecConfigs, .field "codec_configs"⟩
  validateTiming b
  checkEach b.validateAudioElement b.audioElements
  checkEach b.validateMixPresentation b.mixPresentations
  checkEach b.validateUsed (List.range b.substreams.length)
  validateTemplates b

end EncoderBuilder

end Iamf.Wire
