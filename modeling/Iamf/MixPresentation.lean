import Iamf.AudioElement
import Iamf.LanguageTag

/-! The Mix Presentation OBU: how audio elements are rendered and mixed, and the loudness
the author measured. -/
namespace Iamf.Wire
open Bits BitString TapeCodec

inductive HeadphonesRenderingMode where
  | stereo
  | binaural
  | reserved (raw : UInt8)
  deriving DecidableEq, Repr

namespace HeadphonesRenderingMode

def value : HeadphonesRenderingMode → UInt8
  | .stereo => 0
  | .binaural => 1
  | .reserved raw => raw

def fromValue (value : UInt8) : HeadphonesRenderingMode :=
  match value with
  | 0 => .stereo
  | 1 => .binaural
  | other => .reserved other

def Plain (mode : HeadphonesRenderingMode) : Prop := fromValue mode.value = mode

theorem valueOfFromValue (v : UInt8) : (fromValue v).value = v := by
  unfold fromValue
  split <;> rfl

theorem fromValuePlain (v : UInt8) : (fromValue v).Plain := by
  rw [Plain, valueOfFromValue]

end HeadphonesRenderingMode

structure RenderingConfig where
  headphonesRenderingMode : HeadphonesRenderingMode
  reserved : UInt8
  extension : Bytes
  deriving DecidableEq

def RenderingConfig.stereo : RenderingConfig := ⟨.stereo, 0, []⟩

structure MixGainParamDefinition where
  definition : ParamDefinition
  defaultMixGain : Int16
  deriving DecidableEq

def MixGainParamDefinition.mode1 (parameterId parameterRate : UInt32) : MixGainParamDefinition :=
  ⟨.mode1 parameterId parameterRate, 0⟩

structure AnchorElement where
  anchorElement : UInt8
  anchoredLoudness : Int16
  deriving DecidableEq

structure AnchoredLoudness where
  anchorElements : List AnchorElement
  deriving DecidableEq

structure LoudnessExtension where
  infoTypeBits : UInt8
  bytes : Bytes
  deriving DecidableEq

structure Loudness where
  integrated : Int16
  digitalPeak : Int16
  truePeak : Option Int16
  anchored : Option AnchoredLoudness
  extension : Option LoudnessExtension
  deriving DecidableEq

namespace Loudness

def new (integrated digitalPeak : Int16) : Loudness := ⟨integrated, digitalPeak, none, none, none⟩

def infoTypeOf (truePeak anchored : Bool) (extensionBits : UInt8) : UInt8 :=
  (if truePeak then 0x01 else 0) ||| (if anchored then 0x02 else 0) ||| extensionBits

def extensionBits (v : Loudness) : UInt8 :=
  match v.extension with
  | some extension => extension.infoTypeBits &&& 0xfc
  | none => 0

def infoType (v : Loudness) : UInt8 := infoTypeOf v.truePeak.isSome v.anchored.isSome v.extensionBits

end Loudness

inductive Layout where
  | soundSystem (system : SoundSystem)
  | binaural
  | reserved (raw : UInt8)
  deriving DecidableEq

namespace Layout

def layoutType : Layout → UInt8
  | .soundSystem _ => 2
  | .binaural => 3
  | .reserved raw => raw

def soundSystem? : Layout → Option SoundSystem
  | .soundSystem system => some system
  | _ => none

end Layout

structure LayoutWithLoudness where
  layout : Layout
  reserved : UInt8
  loudness : Loudness
  deriving DecidableEq

structure SubMixAudioElement where
  audioElementId : UInt32
  localizedElementAnnotations : List Bytes
  renderingConfig : RenderingConfig
  elementMixGain : MixGainParamDefinition
  deriving DecidableEq

structure SubMix where
  elements : List SubMixAudioElement
  outputMixGain : MixGainParamDefinition
  layouts : List LayoutWithLoudness
  deriving DecidableEq

namespace SubMix

def hasStereoLayout (s : SubMix) : Bool :=
  s.layouts.any fun entry => entry.layout.soundSystem? == some .a0_2_0

def validate (s : SubMix) : List Finding :=
  findingIf (!s.hasStereoLayout) (.at "sub_mix.layouts"
    "no Sound System A (0+2+0) stereo layout: iamf-tools refuses to write this sub-mix — \"Every sub-mix must have a stereo layout.\" — while both libiamf revisions and iamf-tools' own read path accept it" []) ++
  findingIf s.elements.isEmpty (.at "sub_mix.num_audio_elements"
    "num_audio_elements is 0; a sub-mix with no element mixes nothing" [])

end SubMix

structure MixPresentation where
  mixPresentationId : UInt32
  annotationsLanguage : List Bytes
  localizedPresentationAnnotations : List Bytes
  subMixes : List SubMix
  trailing : Bytes
  deriving DecidableEq

namespace MixPresentation

def countLabel (m : MixPresentation) : Nat := m.annotationsLanguage.length

def validateAnnotations (m : MixPresentation) : List Finding :=
  findingIf (m.localizedPresentationAnnotations.length != m.countLabel) (.at "localized_presentation_annotations"
    "there are {} localized presentation annotations but count_label is {}"
    [.number m.localizedPresentationAnnotations.length, .number m.countLabel]) ++
  (laterDuplicates eqIgnoreAsciiCase m.annotationsLanguage).map (fun language => .at "annotations_language"
    "mix presentation {} lists annotations_language {} more than once; the same language SHALL NOT be duplicated (IAMF v1.1.0 index.bs:1273)"
    [.number m.mixPresentationId.toNat, .text language]) ++
  (m.annotationsLanguage.filter (!isWellFormedLanguageTag ·)).map (fun language => .at "annotations_language"
    "mix presentation {} lists annotations_language {}, which is not a well-formed BCP-47 language tag (RFC 5646 section 2.1); it SHALL conform to BCP-47 (IAMF v1.1.0 index.bs:1273)"
    [.number m.mixPresentationId.toNat, .text language])

def validateSubMixCount (m : MixPresentation) : List Finding :=
  match m.subMixes.length with
  | 1 => []
  | 0 => [.at "num_sub_mixes" "num_sub_mixes is 0; it SHALL NOT be 0 (IAMF v1.1.0 index.bs:1278)" []]
  | count => [.at "num_sub_mixes"
      "num_sub_mixes is {}; it SHOULD be 1 and parsers SHOULD ignore a Mix Presentation with more (IAMF v1.1.0 index.bs:1920); libiamf fails its parse"
      [.number count]]

def references (m : MixPresentation) : List UInt32 :=
  m.subMixes.flatMap fun subMix => subMix.elements.map (·.audioElementId)

def validateReferences (m : MixPresentation) : List Finding :=
  (laterDuplicates (· == ·) m.references).map fun id => .at "sub_mix.audio_element_id"
    "mix presentation {} references audio_element_id {} more than once; there SHALL be no duplicate audio_element_id within one Mix Presentation (IAMF v1.1.0 index.bs:1280)"
    [.number m.mixPresentationId.toNat, .number id.toNat]

def validateElement (countLabel : Nat) (element : SubMixAudioElement) : List Finding :=
  reservedFinding element.renderingConfig.reserved "rendering_config.reserved" 6 ++
  (match element.renderingConfig.headphonesRenderingMode with
    | .reserved raw => [.at "headphones_rendering_mode"
        "audio element {} carries reserved headphones_rendering_mode {}; parsers SHALL ignore this Mix Presentation (IAMF v1.1.0 index.bs:1341)"
        [.number element.audioElementId.toNat, .number raw.toNat]]
    | _ => []) ++
  element.elementMixGain.definition.validate ++
  findingIf (element.localizedElementAnnotations.length != countLabel) (.at "localized_element_annotations"
    "audio element {} carries {} localized annotations but count_label is {}"
    [.number element.audioElementId.toNat, .number element.localizedElementAnnotations.length, .number countLabel])

def validateLayout (layout : LayoutWithLoudness) : List Finding :=
  reservedFinding layout.reserved "layout.reserved" (if layout.layout.soundSystem?.isSome then 2 else 6) ++
  match layout.loudness.anchored with
  | some anchored =>
    (laterDuplicates (fun a b => a.anchorElement == b.anchorElement) anchored.anchorElements).map fun anchor =>
      .at "anchored_loudness.anchor_element"
        "anchor_element {} appears more than once in one loudness_info; there SHALL be no duplicate anchor_element within one LoudnessInfo() (IAMF v1.1.0 index.bs:1485)"
        [.number anchor.anchorElement.toNat]
  | none => []

def validateSubMix (countLabel : Nat) (subMix : SubMix) : List Finding :=
  subMix.validate ++ subMix.elements.flatMap (validateElement countLabel) ++
  subMix.outputMixGain.definition.validate ++ subMix.layouts.flatMap validateLayout

def validate (m : MixPresentation) : List Finding :=
  m.validateAnnotations ++ m.validateSubMixCount ++ m.validateReferences ++
    m.subMixes.flatMap (validateSubMix m.countLabel)

end MixPresentation

def scalableLayoutFinding (mixPresentationId : UInt32) (subMix : SubMix) (element : Option AudioElement) :
    Option Finding :=
  match subMix.elements, element.map AudioElement.audioElementType with
  | [only], some (.channelBased config) =>
    let numLayers := config.layers.length
    if numLayers ≤ 1 || subMix.layouts.length ≥ numLayers then none
    else some (.at "sub_mix.num_layouts"
      "mix presentation {} has a sub-mix whose only audio element {} is scalable with num_layers {} but num_layouts is {}; num_layouts SHALL be >= num_layers unless the highest loudness_layout is the layout the sub-mix was authored on (IAMF v1.1.0 index.bs:1305-1309)"
      [.number mixPresentationId.toNat, .number only.audioElementId.toNat, .number numLayers,
        .number subMix.layouts.length])
  | _, _ => none

def readLocalized : Reader Bytes := do
  let bytes ← readString
  pure bytes.dropLast

def readStrings (count : Nat) : Reader (List Bytes) := do
  let start ← bytePosition
  readBounded readLocalized count start

section

variable [UlebForm]

def readBoundedCount : Reader Nat := do
  let start ← bytePosition
  let count ← readUleb128
  let remaining ← bytesRemaining
  ensure (!(count.toNat > remaining)) (inputError .unexpectedEndOfInput start)
  pure count.toNat

def readRenderingConfig : Reader RenderingConfig := do
  let headphonesRenderingMode ← readU8 2
  let reserved ← readU8 6
  let size ← readUleb128
  let extension ← readUint8Span size.toNat
  pure ⟨.fromValue headphonesRenderingMode, reserved, extension⟩

def readMixGainParamDefinition : Reader MixGainParamDefinition := do
  let definition ← readParamDefinition
  let defaultMixGain ← readI16
  pure ⟨definition, defaultMixGain⟩

def readSubMixAudioElement (countLabel : Nat) : Reader SubMixAudioElement := do
  let audioElementId ← readUleb128
  let localizedElementAnnotations ← readStrings countLabel
  let renderingConfig ← readRenderingConfig
  let elementMixGain ← readMixGainParamDefinition
  pure ⟨audioElementId, localizedElementAnnotations, renderingConfig, elementMixGain⟩

end

def readLayout (layoutType : UInt8) : Reader (Layout × UInt8) :=
  if layoutType = 2 then do
    let soundSystem ← readU8 4
    let reserved ← readU8 2
    pure (.soundSystem (.fromValue soundSystem), reserved)
  else do
    let reserved ← readU8 6
    pure (if layoutType = 3 then .binaural else .reserved layoutType, reserved)

def readAnchorElement : Reader AnchorElement := do
  let anchorElement ← readU8 8
  let anchoredLoudness ← readI16
  pure ⟨anchorElement, anchoredLoudness⟩

def readTruePeak (infoType : UInt8) : Reader (Option Int16) :=
  if infoType &&& 0x01 = 0 then pure none
  else do
    let truePeak ← readI16
    pure (some truePeak)

def readAnchored (infoType : UInt8) : Reader (Option AnchoredLoudness) :=
  if infoType &&& 0x02 = 0 then pure none
  else do
    let start ← bytePosition
    let count ← readU8 8
    let remaining ← bytesRemaining
    ensure (!(count.toNat * 3 > remaining)) (inputError .unexpectedEndOfInput start)
    let anchorElements ← readMany readAnchorElement count.toNat
    pure (some ⟨anchorElements⟩)

section

variable [UlebForm]

def readLoudnessExtension (infoType : UInt8) : Reader (Option LoudnessExtension) :=
  if infoType &&& 0xfc = 0 then pure none
  else do
    let size ← readUleb128
    let bytes ← readUint8Span size.toNat
    pure (some ⟨infoType &&& 0xfc, bytes⟩)

def readLoudness : Reader Loudness := do
  let infoType ← readU8 8
  let integrated ← readI16
  let digitalPeak ← readI16
  let truePeak ← readTruePeak infoType
  let anchored ← readAnchored infoType
  let extension ← readLoudnessExtension infoType
  pure ⟨integrated, digitalPeak, truePeak, anchored, extension⟩

def readLayoutWithLoudness : Reader LayoutWithLoudness := do
  let layoutType ← readU8 2
  let (layout, reserved) ← readLayout layoutType
  let loudness ← readLoudness
  pure ⟨layout, reserved, loudness⟩

def readSubMix (countLabel : Nat) : Reader SubMix := do
  let elements ← readCounted (readSubMixAudioElement countLabel)
  let outputMixGain ← readMixGainParamDefinition
  let layouts ← readCounted readLayoutWithLoudness
  pure ⟨elements, outputMixGain, layouts⟩

def readMixPresentationBody : Reader MixPresentation := do
  let mixPresentationId ← readUleb128
  let countLabel ← readBoundedCount
  let annotationsLanguage ← readStrings countLabel
  let localizedPresentationAnnotations ← readStrings countLabel
  let subMixes ← readCounted (readSubMix countLabel)
  pure ⟨mixPresentationId, annotationsLanguage, localizedPresentationAnnotations, subMixes, []⟩

def readMixPresentation : Reader MixPresentation := do
  let presentation ← readMixPresentationBody
  let trailing ← readTrailing
  pure { presentation with trailing := trailing }

end

def writeRenderingConfig (v : RenderingConfig) : Writer Unit := do
  writeUnsigned v.headphonesRenderingMode.value.toNat 2
  writeUnsigned v.reserved.toNat 6
  writeCount v.extension.length "rendering_config_extension_size"
  writeBytes v.extension

def writeMixGainParamDefinition (v : MixGainParamDefinition) : Writer Unit := do
  writeParamDefinition v.definition
  writeSigned v.defaultMixGain.toInt 16

def writeSubMixAudioElement (v : SubMixAudioElement) : Writer Unit := do
  writeUleb128Minimal v.audioElementId
  writeEach writeString v.localizedElementAnnotations
  writeRenderingConfig v.renderingConfig
  writeMixGainParamDefinition v.elementMixGain

def aliasesLayout : Layout → Bool
  | .reserved raw => raw == 2 || raw == 3
  | _ => false

def writeLayout (layout : Layout) (reserved : UInt8) : Writer Unit :=
  match layout.soundSystem? with
  | some soundSystem => do
    writeUnsigned soundSystem.value.toNat 4
    writeUnsigned reserved.toNat 2
  | none => writeUnsigned reserved.toNat 6

def writeAnchorElement (v : AnchorElement) : Writer Unit := do
  writeUnsigned v.anchorElement.toNat 8
  writeSigned v.anchoredLoudness.toInt 16

def writeTruePeak : Option Int16 → Writer Unit
  | some truePeak => writeSigned truePeak.toInt 16
  | none => pure ()

def writeAnchored : Option AnchoredLoudness → Writer Unit
  | some anchored => do
    ensure (anchored.anchorElements.length ≤ 255) ⟨.obuTooLarge, .field "num_anchored_loudness"⟩
    writeUnsigned anchored.anchorElements.length 8
    writeEach writeAnchorElement anchored.anchorElements
  | none => pure ()

def writeLoudnessExtension : Option LoudnessExtension → Writer Unit
  | some extension => do
    writeCount extension.bytes.length "info_type_size"
    writeBytes extension.bytes
  | none => pure ()

-- the extension owns the bits of `info_type` that no other part does, and at least one of them
def gatedExtension (v : Loudness) : Bool :=
  match v.extension with
  | some extension => extension.infoTypeBits &&& 0xfc == 0 || extension.infoTypeBits &&& 0x03 != 0
  | none => false

def writeLoudness (v : Loudness) : Writer Unit := do
  ensure (!gatedExtension v) ⟨.gatedFieldMismatch, .field "info_type"⟩
  writeUnsigned v.infoType.toNat 8
  writeSigned v.integrated.toInt 16
  writeSigned v.digitalPeak.toInt 16
  writeTruePeak v.truePeak
  writeAnchored v.anchored
  writeLoudnessExtension v.extension

def writeLayoutWithLoudness (v : LayoutWithLoudness) : Writer Unit := do
  ensure (!aliasesLayout v.layout) ⟨.reservedAliasesDefinedValue, .field "layout_type"⟩
  writeUnsigned v.layout.layoutType.toNat 2
  writeLayout v.layout v.reserved
  writeLoudness v.loudness

def writeSubMix (v : SubMix) : Writer Unit := do
  writeCounted writeSubMixAudioElement v.elements "num_audio_elements"
  writeMixGainParamDefinition v.outputMixGain
  writeCounted writeLayoutWithLoudness v.layouts "num_layouts"

def MixPresentation.annotationsPresented (v : MixPresentation) : Bool :=
  v.localizedPresentationAnnotations.length == v.countLabel

def MixPresentation.annotationsOfElements (v : MixPresentation) : Bool :=
  v.subMixes.all fun subMix => subMix.elements.all fun element =>
    element.localizedElementAnnotations.length == v.countLabel

def writeMixPresentation (v : MixPresentation) : Writer Unit := do
  ensure v.annotationsPresented ⟨.annotationCountMismatch, .field "localized_presentation_annotations"⟩
  ensure v.annotationsOfElements ⟨.annotationCountMismatch, .field "localized_element_annotations"⟩
  writeUleb128Minimal v.mixPresentationId
  writeCount v.countLabel "count_label"
  writeEach writeString v.annotationsLanguage
  writeEach writeString v.localizedPresentationAnnotations
  writeCounted writeSubMix v.subMixes "num_sub_mixes"
  writeBytes v.trailing

end Iamf.Wire
