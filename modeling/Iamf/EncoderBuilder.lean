import Iamf.SequenceValidate
import Iamf.SequenceWriter

/-! Declaring the descriptors of a sequence. What a caller stores in the id fields of a template
is a placeholder: handles say what refers to what, and `build` assigns the ids. -/
namespace Iamf.Wire
open Bits BitString TapeCodec

inductive HandleKind where
  | codecConfig
  | audioElement
  | mixPresentation
  | substream
  | parameter
  deriving DecidableEq, Repr

/-- A position among the declarations of one kind, and the builder that issued it. -/
structure Handle (kind : HandleKind) where
  generation : UInt64
  index : Nat
  deriving DecidableEq, Repr

abbrev CodecConfigHandle := Handle .codecConfig
abbrev AudioElementHandle := Handle .audioElement
abbrev MixPresentationHandle := Handle .mixPresentation
abbrev SubstreamHandle := Handle .substream
abbrev ParameterHandle := Handle .parameter

structure IdManifest where
  codecConfigs : List (CodecConfigHandle × UInt32)
  audioElements : List (AudioElementHandle × UInt32)
  mixPresentations : List (MixPresentationHandle × UInt32)
  substreamIds : List (SubstreamHandle × UInt32)
  parameterIds : List (ParameterHandle × UInt32)
  elementSubstreams : List (AudioElementHandle × List SubstreamHandle)
  presentationParameters : List (MixPresentationHandle × List ParameterHandle)
  sequenceProfile : Profile
  deriving DecidableEq

def lookupEntry {kind : HandleKind} {T : Type} (entries : List (Handle kind × T)) (handle : Handle kind) : Option T :=
  (entries.find? fun entry => entry.1 == handle).map (·.2)

def lookupId {kind : HandleKind} (entries : List (Handle kind × UInt32)) (handle : Handle kind) : Option UInt32 :=
  lookupEntry entries handle

namespace IdManifest

def substreamId (m : IdManifest) (handle : SubstreamHandle) : Option UInt32 := lookupId m.substreamIds handle

def parameterId (m : IdManifest) (handle : ParameterHandle) : Option UInt32 := lookupId m.parameterIds handle

def substreams (m : IdManifest) (handle : AudioElementHandle) : Option (List SubstreamHandle) :=
  lookupEntry m.elementSubstreams handle

def parameters (m : IdManifest) (handle : MixPresentationHandle) : Option (List ParameterHandle) :=
  lookupEntry m.presentationParameters handle

def codecConfigId (m : IdManifest) (handle : CodecConfigHandle) : Option UInt32 := lookupId m.codecConfigs handle

def audioElementId (m : IdManifest) (handle : AudioElementHandle) : Option UInt32 := lookupId m.audioElements handle

def mixPresentationId (m : IdManifest) (handle : MixPresentationHandle) : Option UInt32 :=
  lookupId m.mixPresentations handle

end IdManifest

structure Encoder where
  descriptors : DescriptorSet
  generation : UInt64

structure AudioElementDeclaration where
  codecConfig : CodecConfigHandle
  substreams : List SubstreamHandle
  element : AudioElement
  deriving DecidableEq

structure MixPresentationDeclaration where
  audioElements : List AudioElementHandle
  parameters : List ParameterHandle
  presentation : MixPresentation
  deriving DecidableEq

structure ParameterDeclaration where
  implicitId : Option UInt32
  gain : MixGainParamDefinition
  deriving DecidableEq

structure EncoderBuilder where
  generation : UInt64
  codecConfigs : List CodecConfig
  audioElements : List AudioElementDeclaration
  mixPresentations : List MixPresentationDeclaration
  substreams : List (Option UInt32)
  parameters : List ParameterDeclaration
  deriving DecidableEq

namespace EncoderBuilder

-- the generation is the next value of a counter the builders share
def new (generation : UInt64) : EncoderBuilder := ⟨generation, [], [], [], [], []⟩

abbrev Declare (T : Type) := StateM EncoderBuilder T

def addCodecConfig (config : CodecConfig) : Declare CodecConfigHandle :=
  modifyGet fun b => (⟨b.generation, b.codecConfigs.length⟩, { b with codecConfigs := b.codecConfigs ++ [config] })

def declareSubstream (implicitId : Option UInt32) : Declare SubstreamHandle :=
  modifyGet fun b => (⟨b.generation, b.substreams.length⟩, { b with substreams := b.substreams ++ [implicitId] })

def addSubstream : Declare SubstreamHandle := declareSubstream none

def addAudioElementWithSubstreams (codecConfig : CodecConfigHandle) (substreams : List SubstreamHandle)
    (element : AudioElement) : Declare AudioElementHandle :=
  modifyGet fun b => (⟨b.generation, b.audioElements.length⟩,
    { b with audioElements := b.audioElements ++ [⟨codecConfig, substreams, element⟩] })

def addAudioElement (codecConfig : CodecConfigHandle) (element : AudioElement) : Declare AudioElementHandle := do
  let substreams ← element.audioSubstreamIds.mapM fun id => declareSubstream (some id)
  addAudioElementWithSubstreams codecConfig substreams element

def addAmbisonicsMono (codecConfig : CodecConfigHandle) (substreams : List SubstreamHandle)
    (config : AmbisonicsMonoConfig) : Declare AudioElementHandle :=
  addAudioElementWithSubstreams codecConfig substreams
    ⟨0, 0, .sceneBased (.mono config), 0, List.replicate substreams.length 0, [], []⟩

def declareParameter (implicitId : Option UInt32) (gain : MixGainParamDefinition) : Declare ParameterHandle :=
  modifyGet fun b => (⟨b.generation, b.parameters.length⟩, { b with parameters := b.parameters ++ [⟨implicitId, gain⟩] })

def addMixGainParameter (gain : MixGainParamDefinition) : Declare ParameterHandle := declareParameter none gain

def addMixPresentationWithParameters (audioElements : List AudioElementHandle) (parameters : List ParameterHandle)
    (presentation : MixPresentation) : Declare MixPresentationHandle :=
  modifyGet fun b => (⟨b.generation, b.mixPresentations.length⟩,
    { b with mixPresentations := b.mixPresentations ++ [⟨audioElements, parameters, presentation⟩] })

def addMixPresentation (audioElements : List AudioElementHandle) (presentation : MixPresentation) :
    Declare MixPresentationHandle := do
  let parameters ← presentation.gains.mapM fun gain => declareParameter (some gain.definition.parameterId) gain
  addMixPresentationWithParameters audioElements parameters presentation

end EncoderBuilder

end Iamf.Wire
