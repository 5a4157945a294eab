import Iamf.BuilderChecks

/-! `build`: parameter handles are resolved, everything is checked, and the templates are lowered
to descriptors whose ids are the positions of the declarations. -/
namespace Iamf.Wire
open Bits BitString TapeCodec

def setElementGains : List SubMixAudioElement → List MixGainParamDefinition → List SubMixAudioElement
  | element :: elements, gain :: gains => { element with elementMixGain := gain } :: setElementGains elements gains
  | elements, _ => elements

def SubMix.setGains (subMix : SubMix) (gains : List MixGainParamDefinition) : SubMix :=
  { subMix with
    elements := setElementGains subMix.elements gains
    outputMixGain := (gains.drop subMix.elements.length).headD subMix.outputMixGain }

def setSubMixGains : List SubMix → List MixGainParamDefinition → List SubMix
  | [], _ => []
  | subMix :: subMixes, gains =>
    subMix.setGains gains :: setSubMixGains subMixes (gains.drop (subMix.elements.length + 1))

-- in wire order: the elements of a sub-mix, then its output
def MixPresentation.setGains (presentation : MixPresentation) (gains : List MixGainParamDefinition) : MixPresentation :=
  { presentation with subMixes := setSubMixGains presentation.subMixes gains }

def parameterWireId : Option ParameterHandle → Except Error UInt32
  | none => .error (invalid "mix_presentation.parameters")
  | some handle => wireId handle.index

def referenceWireId : Option AudioElementHandle → Except Error UInt32
  | none => .error (invalid "mix_presentation.audio_elements")
  | some handle => wireId handle.index

def MixGainParamDefinition.withId (gain : MixGainParamDefinition) (id : UInt32) : MixGainParamDefinition :=
  { gain with definition := { gain.definition with parameterId := id } }

def lowerElements : List SubMixAudioElement → List AudioElementHandle → List ParameterHandle →
    Except Error (List SubMixAudioElement)
  | [], _, _ => .ok []
  | element :: elements, handles, parameters => do
    let id ← referenceWireId handles.head?
    let parameterId ← parameterWireId parameters.head?
    let others ← lowerElements elements handles.tail parameters.tail
    .ok ({ element with audioElementId := id, elementMixGain := element.elementMixGain.withId parameterId } :: others)

def lowerSubMix (subMix : SubMix) (handles : List AudioElementHandle) (parameters : List ParameterHandle) :
    Except Error SubMix := do
  let elements ← lowerElements subMix.elements handles parameters
  let parameterId ← parameterWireId (parameters.drop subMix.elements.length).head?
  .ok { subMix with elements := elements, outputMixGain := subMix.outputMixGain.withId parameterId }

def lowerSubMixes : List SubMix → List AudioElementHandle → List ParameterHandle → Except Error (List SubMix)
  | [], _, _ => .ok []
  | subMix :: subMixes, handles, parameters => do
    let lowered ← lowerSubMix subMix handles parameters
    let others ← lowerSubMixes subMixes (handles.drop subMix.elements.length)
      (parameters.drop (subMix.elements.length + 1))
    .ok (lowered :: others)

def lowerEach {T U : Type} (lower : T → Nat → Except Error U) : List T → Nat → Except Error (List U)
  | [], _ => .ok []
  | item :: items, index => do
    let lowered ← lower item index
    let others ← lowerEach lower items (index + 1)
    .ok (lowered :: others)

def lowerCodecConfig (config : CodecConfig) (index : Nat) : Except Error CodecConfig := do
  let id ← wireId index
  .ok { config with codecConfigId := id }

def lowerAudioElement (declaration : AudioElementDeclaration) (index : Nat) : Except Error AudioElement := do
  let codecConfigId ← wireId declaration.codecConfig.index
  let id ← wireId index
  let audioSubstreamIds ← declaration.substreams.mapM fun handle => wireId handle.index
  .ok { declaration.element with
    audioElementId := id, codecConfigId := codecConfigId, audioSubstreamIds := audioSubstreamIds }

def lowerMixPresentation (declaration : MixPresentationDeclaration) (index : Nat) : Except Error MixPresentation := do
  let subMixes ← lowerSubMixes declaration.presentation.subMixes declaration.audioElements declaration.parameters
  let id ← wireId index
  .ok { declaration.presentation with mixPresentationId := id, subMixes := subMixes }

def allocateIds (kind : HandleKind) (generation : UInt64) (length : Nat) :
    Except Error (List (Handle kind × UInt32)) :=
  (List.range length).mapM fun index => do
    let id ← wireId index
    .ok (⟨generation, index⟩, id)

namespace EncoderBuilder

def resolveParameter (b : EncoderBuilder) (used : List ParameterHandle) (handle : ParameterHandle) :
    Except Error MixGainParamDefinition :=
  match b.parameters[handle.index]? with
  | none => .error ⟨.unknownParameterHandle, .unlocated⟩
  | some parameter =>
    if handle.generation ≠ b.generation then .error ⟨.unknownParameterHandle, .unlocated⟩
    else if used.contains handle then .error ⟨.duplicateDeclaration, .field "parameter_id"⟩
    else .ok parameter.gain

def resolveGains (b : EncoderBuilder) (used : List ParameterHandle) :
    List ParameterHandle → Except Error (List MixGainParamDefinition)
  | [] => .ok []
  | handle :: handles => do
    let gain ← b.resolveParameter used handle
    let gains ← b.resolveGains (used ++ [handle]) handles
    .ok (gain :: gains)

def resolvePresentations (b : EncoderBuilder) (used : List ParameterHandle) :
    List MixPresentationDeclaration → Except Error (List MixPresentationDeclaration × List ParameterHandle)
  | [] => .ok ([], used)
  | declaration :: declarations => do
    guarded (declaration.parameters.length == declaration.presentation.gains.length) (invalid "mix_presentation.parameters")
    let gains ← b.resolveGains used declaration.parameters
    let (others, used) ← b.resolvePresentations (used ++ declaration.parameters) declarations
    .ok ({ declaration with presentation := declaration.presentation.setGains gains } :: others, used)

def resolveParameterReferences (b : EncoderBuilder) : Except Error EncoderBuilder := do
  let (mixPresentations, used) ← b.resolvePresentations [] b.mixPresentations
  guarded (used.length == b.parameters.length) (invalid "unused_parameter")
  .ok { b with mixPresentations := mixPresentations }

def allocateManifest (b : EncoderBuilder) : Except Error IdManifest := do
  let codecConfigs ← allocateIds .codecConfig b.generation b.codecConfigs.length
  let audioElements ← allocateIds .audioElement b.generation b.audioElements.length
  let mixPresentations ← allocateIds .mixPresentation b.generation b.mixPresentations.length
  let substreamIds ← allocateIds .substream b.generation b.substreams.length
  let parameterIds ← allocateIds .parameter b.generation b.parameters.length
  .ok {
    codecConfigs := codecConfigs
    audioElements := audioElements
    mixPresentations := mixPresentations
    substreamIds := substreamIds
    parameterIds := parameterIds
    elementSubstreams := b.audioElements.zipIdx.map fun (declaration, index) =>
      (⟨b.generation, index⟩, declaration.substreams)
    presentationParameters := b.mixPresentations.zipIdx.map fun (declaration, index) =>
      (⟨b.generation, index⟩, declaration.parameters)
    sequenceProfile := .simple }

def lowerDescriptors (b : EncoderBuilder) : Except Error DescriptorSet := do
  let codecConfigs ← lowerEach lowerCodecConfig b.codecConfigs 0
  let audioElements ← lowerEach lowerAudioElement b.audioElements 0
  let mixPresentations ← lowerEach lowerMixPresentation b.mixPresentations 0
  .ok ⟨.new 0 0, codecConfigs, audioElements, mixPresentations⟩

def build (b : EncoderBuilder) : Except Error (Encoder × IdManifest) := do
  let b ← b.resolveParameterReferences
  b.validateDeclarations
  let manifest ← b.allocateManifest
  let descriptors ← b.lowerDescriptors
  let (primaryProfile, additionalProfile) ← selectSequenceProfile descriptors.audioElements descriptors.mixPresentations
  .ok (⟨{ descriptors with sequenceHeader := .new primaryProfile.toWire additionalProfile.toWire }, b.generation⟩,
    { manifest with sequenceProfile := primaryProfile })

end EncoderBuilder

end Iamf.Wire
