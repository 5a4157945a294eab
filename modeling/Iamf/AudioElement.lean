import Iamf.Layout
import Iamf.ParamDefinition

/-! The Audio Element OBU: substreams, parameters, and a channel-based, scene-based or
unknown configuration. -/
namespace Iamf.Wire
open Bits BitString TapeCodec

def paramDefinitionDemixing : UInt32 := 1
def paramDefinitionReconGain : UInt32 := 2
def iamfToolsMaxNumParameters : Nat := 256

structure OutputGain where
  flags : UInt8
  reserved : UInt8
  gain : Int16
  deriving DecidableEq

structure ChannelAudioLayerConfig where
  loudspeakerLayout : LoudspeakerLayout
  outputGain : Option OutputGain
  reconGainIsPresent : Bool
  reserved : UInt8
  substreamCount : UInt8
  coupledSubstreamCount : UInt8
  deriving DecidableEq

def ChannelAudioLayerConfig.new (loudspeakerLayout : LoudspeakerLayout)
    (substreamCount coupledSubstreamCount : UInt8) : ChannelAudioLayerConfig :=
  ⟨loudspeakerLayout, none, false, 0, substreamCount, coupledSubstreamCount⟩

structure ScalableChannelLayoutConfig where
  reserved : UInt8
  layers : List ChannelAudioLayerConfig
  deriving DecidableEq

def ScalableChannelLayoutConfig.singleLayer (layer : ChannelAudioLayerConfig) : ScalableChannelLayoutConfig :=
  ⟨0, [layer]⟩

inductive AudioElementType where
  | channelBased (config : ScalableChannelLayoutConfig)
  | sceneBased (config : AmbisonicsConfig)
  | reserved (value : UInt8) (raw : Bytes)
  deriving DecidableEq

namespace AudioElementType

def value : AudioElementType → UInt8
  | .channelBased _ => 0
  | .sceneBased _ => 1
  | .reserved value _ => value

def sceneBasedConfig : AudioElementType → Option AmbisonicsConfig
  | .sceneBased config => some config
  | _ => none

end AudioElementType

inductive AudioElementParam where
  | demixing (definition : ParamDefinition) (defaultDmixpMode defaultReserved defaultW defaultWReserved : UInt8)
  | reconGain (definition : ParamDefinition)
  | extension (paramDefinitionType : UInt32) (bytes : Bytes)
  deriving DecidableEq

def AudioElementParam.paramDefinitionType : AudioElementParam → UInt32
  | .demixing .. => paramDefinitionDemixing
  | .reconGain _ => paramDefinitionReconGain
  | .extension paramDefinitionType _ => paramDefinitionType

structure AudioElement where
  audioElementId : UInt32
  reserved : UInt8
  audioElementType : AudioElementType
  codecConfigId : UInt32
  audioSubstreamIds : List UInt32
  params : List AudioElementParam
  trailing : Bytes
  deriving DecidableEq

def reservedFinding (value : UInt8) (field : String) (width : Nat) : List Finding :=
  findingIf (value != 0) (.at field (field ++ " is non-zero ({}) in its {}-bit reserved field")
    [.hex value.toNat, .number width])

namespace AudioElement

def channelBased (audioElementId codecConfigId : UInt32) (audioSubstreamIds : List UInt32)
    (scalableChannelLayout : ScalableChannelLayoutConfig) : AudioElement :=
  ⟨audioElementId, 0, .channelBased scalableChannelLayout, codecConfigId, audioSubstreamIds, [], []⟩

def validateLayer (layer : ChannelAudioLayerConfig) : List Finding :=
  reservedFinding layer.reserved "channel_audio_layer_config.reserved" 2 ++
    match layer.outputGain with
    | some outputGain => reservedFinding outputGain.reserved "output_gain.reserved" 2
    | none => []

def validateChannelBased (substreams : Nat) (config : ScalableChannelLayoutConfig) : List Finding :=
  let declared := (config.layers.map fun layer => layer.substreamCount.toNat).sum
  reservedFinding config.reserved "scalable_channel_layout_config.reserved" 5 ++
  findingIf config.layers.isEmpty (.at "num_layers"
    "num_layers is 0; a channel-based element needs at least one layer" []) ++
  findingIf (declared != substreams) (.at "substream_count"
    "the layers declare {} substreams but num_substreams is {}" [.number declared, .number substreams]) ++
  config.layers.flatMap validateLayer

def validateParam (param : AudioElementParam) : List Finding :=
  (match param with
    | .demixing definition _ defaultReserved _ defaultWReserved =>
      definition.validate ++
      reservedFinding defaultReserved "default_demixing_info_parameter_data.reserved" 5 ++
      reservedFinding defaultWReserved "default_w.reserved" 4
    | .reconGain definition => definition.validate
    | .extension .. => []) ++
  findingIf (param.paramDefinitionType == 0) (.at "param_definition_type"
    "param_definition_type 0 is a Mix Gain definition and belongs to a Mix Presentation, not an Audio Element" [])

def validate (e : AudioElement) : List Finding :=
  reservedFinding e.reserved "audio_element.reserved" 5 ++
  findingIf e.audioSubstreamIds.isEmpty (.at "num_substreams"
    "num_substreams is 0; an Audio Element with no substream carries no audio" []) ++
  (match e.audioElementType with
    | .channelBased config => validateChannelBased e.audioSubstreamIds.length config
    | _ => []) ++
  e.params.flatMap validateParam ++
  findingIf (e.params.length > iamfToolsMaxNumParameters) (.at "num_parameters"
    "audio element {} has {} parameters; iamf-tools@v2.1.0 refuses an Audio Element with more than 256 (kMaxNumParameters) on read and write, although IAMF v1.1.0 requires parsers to support any num_parameters"
    [.number e.audioElementId.toNat, .number e.params.length])

end AudioElement

section

variable [UlebForm]

def readAudioElementParam : Reader AudioElementParam := do
  let paramDefinitionType ← readUleb128
  if paramDefinitionType = paramDefinitionDemixing then do
    let definition ← readParamDefinition
    let defaultDmixpMode ← readU8 3
    let defaultReserved ← readU8 5
    let defaultW ← readU8 4
    let defaultWReserved ← readU8 4
    pure (.demixing definition defaultDmixpMode defaultReserved defaultW defaultWReserved)
  else if paramDefinitionType = paramDefinitionReconGain then do
    let definition ← readParamDefinition
    pure (.reconGain definition)
  else do
    let size ← readUleb128
    let bytes ← readUint8Span size.toNat
    pure (.extension paramDefinitionType bytes)

end

def writeAudioElementParamFields : AudioElementParam → Writer Unit
  | .demixing definition defaultDmixpMode defaultReserved defaultW defaultWReserved => do
    writeParamDefinition definition
    writeUnsigned defaultDmixpMode.toNat 3
    writeUnsigned defaultReserved.toNat 5
    writeUnsigned defaultW.toNat 4
    writeUnsigned defaultWReserved.toNat 4
  | .reconGain definition => writeParamDefinition definition
  | .extension _ bytes => do
    writeCount bytes.length "param_definition_size"
    writeBytes bytes

-- type 0 stays writable: it has no syntax of its own in an Audio Element
def aliasesParam : AudioElementParam → Bool
  | .extension paramDefinitionType _ => paramDefinitionType == 1 || paramDefinitionType == 2
  | _ => false

def writeAudioElementParam (v : AudioElementParam) : Writer Unit := do
  ensure (!aliasesParam v) ⟨.reservedAliasesDefinedValue, .field "param_definition_type"⟩
  writeUleb128Minimal v.paramDefinitionType
  writeAudioElementParamFields v

def readOutputGain (outputGainIsPresent : Bool) : Reader (Option OutputGain) :=
  if outputGainIsPresent then do
    let flags ← readU8 6
    let reserved ← readU8 2
    let gain ← readI16
    pure (some ⟨flags, reserved, gain⟩)
  else pure none

def readLoudspeakerLayout (layoutBits : UInt8) : Reader LoudspeakerLayout :=
  match LoudspeakerLayout.fromValue layoutBits with
  | some layout => pure layout
  | none => do
    let expanded ← readU8 8
    pure (.expanded (.fromValue expanded))

def readChannelAudioLayerConfig : Reader ChannelAudioLayerConfig := do
  let layoutBits ← readU8 4
  let outputGainIsPresent ← readBool
  let reconGainIsPresent ← readBool
  let reserved ← readU8 2
  let substreamCount ← readU8 8
  let coupledSubstreamCount ← readU8 8
  let outputGain ← readOutputGain outputGainIsPresent
  let loudspeakerLayout ← readLoudspeakerLayout layoutBits
  pure ⟨loudspeakerLayout, outputGain, reconGainIsPresent, reserved, substreamCount, coupledSubstreamCount⟩

def writeOutputGain : Option OutputGain → Writer Unit
  | some gain => do
    writeUnsigned gain.flags.toNat 6
    writeUnsigned gain.reserved.toNat 2
    writeSigned gain.gain.toInt 16
  | none => pure ()

def writeExpandedLayout : Option ExpandedLoudspeakerLayout → Writer Unit
  | some expanded => writeUnsigned expanded.value.toNat 8
  | none => pure ()

def writeChannelAudioLayerConfig (v : ChannelAudioLayerConfig) : Writer Unit := do
  writeUnsigned v.loudspeakerLayout.value.toNat 4
  writeBool v.outputGain.isSome
  writeBool v.reconGainIsPresent
  writeUnsigned v.reserved.toNat 2
  writeUnsigned v.substreamCount.toNat 8
  writeUnsigned v.coupledSubstreamCount.toNat 8
  writeOutputGain v.outputGain
  writeExpandedLayout v.loudspeakerLayout.expandedLayout

def readScalableChannelLayoutConfig : Reader ScalableChannelLayoutConfig := do
  let start ← bytePosition
  let numLayers ← readUnsigned 3
  let reserved ← readU8 5
  let layers ← readBounded readChannelAudioLayerConfig numLayers start
  pure ⟨reserved, layers⟩

def writeScalableChannelLayoutConfig (v : ScalableChannelLayoutConfig) : Writer Unit := do
  writeUnsigned v.layers.length 3
  writeUnsigned v.reserved.toNat 5
  writeEach writeChannelAudioLayerConfig v.layers

section

variable [UlebForm]

def readAmbisonicsConfig : Reader AmbisonicsConfig := do
  let start ← bytePosition
  let mode ← readUleb128
  if mode = 0 then do
    let outputChannelCount ← readU8 8
    let substreamCount ← readU8 8
    let remaining ← bytesRemaining
    ensure (!(outputChannelCount.toNat > remaining)) (inputError .unexpectedEndOfInput start)
    let channelMapping ← readUint8Span outputChannelCount.toNat
    pure (.mono ⟨outputChannelCount, substreamCount, channelMapping⟩)
  else if mode = 1 then do
    let outputChannelCount ← readU8 8
    let substreamCount ← readU8 8
    let coupledSubstreamCount ← readU8 8
    let entries := (substreamCount.toNat + coupledSubstreamCount.toNat) * outputChannelCount.toNat
    let remaining ← bytesRemaining
    ensure (!(entries * 2 > remaining)) (inputError .unexpectedEndOfInput start)
    let demixingMatrix ← readMany readI16 entries
    pure (.projection ⟨outputChannelCount, substreamCount, coupledSubstreamCount, demixingMatrix⟩)
  else pure (.reserved mode)

end

def checkAmbisonicsConfig : AmbisonicsConfig → Except Error Unit
  | .reserved mode =>
    if mode = 0 ∨ mode = 1 then .error ⟨.reservedAliasesDefinedValue, .field "ambisonics_mode"⟩ else .ok ()
  | .mono config =>
    if config.channelMapping.length ≠ config.outputChannelCount.toNat then
      .error ⟨.gatedFieldMismatch, .field "channel_mapping"⟩
    else .ok ()
  | .projection config =>
    if (config.substreamCount.toNat + config.coupledSubstreamCount.toNat) * config.outputChannelCount.toNat ≠
        config.demixingMatrix.length then
      .error ⟨.gatedFieldMismatch, .field "demixing_matrix"⟩
    else .ok ()

def writeAmbisonicsFields : AmbisonicsConfig → Writer Unit
  | .mono config => do
    writeUnsigned config.outputChannelCount.toNat 8
    writeUnsigned config.substreamCount.toNat 8
    writeBytes config.channelMapping
  | .projection config => do
    writeUnsigned config.outputChannelCount.toNat 8
    writeUnsigned config.substreamCount.toNat 8
    writeUnsigned config.coupledSubstreamCount.toNat 8
    writeEach (fun entry : Int16 => writeSigned entry.toInt 16) config.demixingMatrix
  | .reserved _ => pure ()

def writeAmbisonicsConfig (v : AmbisonicsConfig) : Writer Unit := do
  orThrow (checkAmbisonicsConfig v)
  writeUleb128Minimal v.mode
  writeAmbisonicsFields v

section

variable [UlebForm]

def readAudioElementType (typeValue : UInt8) : Reader AudioElementType :=
  if typeValue = 0 then do
    let config ← readScalableChannelLayoutConfig
    pure (.channelBased config)
  else if typeValue = 1 then do
    let config ← readAmbisonicsConfig
    pure (.sceneBased config)
  else do
    let raw ← readTrailing
    pure (.reserved typeValue raw)

def readAudioElementBody : Reader AudioElement := do
  let audioElementId ← readUleb128
  let typeValue ← readU8 3
  let reserved ← readU8 5
  let codecConfigId ← readUleb128
  let audioSubstreamIds ← readCounted readUleb128
  let params ← readCounted readAudioElementParam
  let audioElementType ← readAudioElementType typeValue
  pure ⟨audioElementId, reserved, audioElementType, codecConfigId, audioSubstreamIds, params, []⟩

def readAudioElement : Reader AudioElement := do
  let element ← readAudioElementBody
  let trailing ← readTrailing
  pure { element with trailing := trailing }

end

def writeAudioElementType : AudioElementType → Writer Unit
  | .channelBased config => writeScalableChannelLayoutConfig config
  | .sceneBased config => writeAmbisonicsConfig config
  | .reserved _ raw => writeBytes raw

def aliasesElementType : AudioElementType → Bool
  | .reserved value _ => value == 0 || value == 1
  | _ => false

def writeAudioElement (v : AudioElement) : Writer Unit := do
  ensure (!aliasesElementType v.audioElementType) ⟨.reservedAliasesDefinedValue, .field "audio_element_type"⟩
  writeUleb128Minimal v.audioElementId
  writeUnsigned v.audioElementType.value.toNat 3
  writeUnsigned v.reserved.toNat 5
  writeUleb128Minimal v.codecConfigId
  writeCounted writeUleb128Minimal v.audioSubstreamIds "num_substreams"
  writeCounted writeAudioElementParam v.params "num_parameters"
  writeAudioElementType v.audioElementType
  writeBytes v.trailing

end Iamf.Wire
