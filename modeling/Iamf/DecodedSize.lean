import Iamf.CodecConfigCodec
import Iamf.ParameterBlockCodec
import Iamf.TapeCost

/-! How many list elements a decoded model holds, against the bytes it was read from. Fixed
arrays are no lists: their length is part of their type. -/
namespace Iamf.Wire
open Bits BitString TapeCodec

def listSizeOf {T : Type} (size : T → Nat) (vs : List T) : Nat := (vs.map fun v => 1 + size v).sum

def ParamDefinition.listSize (d : ParamDefinition) : Nat := d.durationFields.elim 0 (·.subblockDurations.length)

def AudioElementParam.listSize : AudioElementParam → Nat
  | .demixing definition .. => definition.listSize
  | .reconGain definition => definition.listSize
  | .extension _ bytes => bytes.length

def AmbisonicsConfig.listSize : AmbisonicsConfig → Nat
  | .mono config => config.channelMapping.length
  | .projection config => config.demixingMatrix.length
  | .reserved _ => 0

def AudioElementType.listSize : AudioElementType → Nat
  | .channelBased config => config.layers.length
  | .sceneBased config => config.listSize
  | .reserved _ raw => raw.length

def AudioElement.listSize (e : AudioElement) : Nat :=
  e.audioElementType.listSize + e.audioSubstreamIds.length + listSizeOf AudioElementParam.listSize e.params + e.trailing.length

def DecoderConfig.listSize : DecoderConfig → Nat
  | .raw _ bytes => bytes.length
  | _ => 0

def CodecConfig.listSize (c : CodecConfig) : Nat := c.decoderConfig.listSize + c.trailing.length

def Loudness.listSize (v : Loudness) : Nat :=
  v.anchored.elim 0 (·.anchorElements.length) + v.extension.elim 0 (·.bytes.length)

def SubMixAudioElement.listSize (e : SubMixAudioElement) : Nat :=
  listSizeOf List.length e.localizedElementAnnotations + e.renderingConfig.extension.length +
    e.elementMixGain.definition.listSize

def SubMix.listSize (s : SubMix) : Nat :=
  listSizeOf SubMixAudioElement.listSize s.elements + s.outputMixGain.definition.listSize +
    listSizeOf (·.loudness.listSize) s.layouts

def MixPresentation.listSize (m : MixPresentation) : Nat :=
  listSizeOf List.length m.annotationsLanguage + listSizeOf List.length m.localizedPresentationAnnotations +
    listSizeOf SubMix.listSize m.subMixes + m.trailing.length

def ParameterData.listSize : ParameterData → Nat
  | .reconGain data => data.layers.length
  | .raw bytes => bytes.length
  | _ => 0

def ParameterBlock.listSize (block : ParameterBlock) : Nat := listSizeOf (·.data.listSize) block.subblocks

theorem listSizeOfCons {T : Type} (size : T → Nat) (v : T) (vs : List T) :
    listSizeOf size (v :: vs) = 1 + size v + listSizeOf size vs := by
  simp [listSizeOf]

theorem listSizeOfNil {T : Type} (size : T → Nat) : listSizeOf size [] = 0 := rfl

theorem listSizeOfNone {T : Type} (vs : List T) : listSizeOf (fun _ => 0) vs = vs.length := by
  simp [listSizeOf]

theorem costsUnsigned (n : Nat) : Costs 0 (readUnsigned n) fun _ => n :=
  consumesMono (consumesUnsigned n) fun _ _ ⟨_, _, bits⟩ => by rw [bits, bitsOfLength, Nat.zero_add]

theorem costsBool : Costs 0 readBool fun _ => 1 := costsReturn (costsUnsigned 1)

theorem costsU8 (n : Nat) : Costs 0 (readU8 n) fun _ => n := costsReturn (costsUnsigned n)

theorem costsU16 (n : Nat) : Costs 0 (readU16 n) fun _ => n := costsReturn (costsUnsigned n)

theorem costsU32 (n : Nat) : Costs 0 (readU32 n) fun _ => n := costsReturn (costsUnsigned n)

theorem costsU64 (n : Nat) : Costs 0 (readU64 n) fun _ => n := costsReturn (costsUnsigned n)

theorem costsArray (n : Nat) : Costs 0 (readArray n) fun _ => 8 * n :=
  consumesMono (consumesArray n) fun v _ bits => by rw [bits, bytesBitsLength, v.property, Nat.zero_add]

theorem costsI16 : Costs 0 readI16 fun _ => 16 :=
  consumesMono (consumesI16 True) fun _ _ ⟨length, _⟩ => by rw [length, Nat.zero_add]

theorem costsPosition : Costs 0 bytePosition fun _ => 0 := consumesMono consumesPosition fun _ _ _ => Nat.zero_le _

theorem costsRemaining : Costs 0 bytesRemaining fun _ => 0 := consumesMono consumesRemaining fun _ _ _ => Nat.zero_le _

theorem costsPeek {T : Type} {f : Reader T} : Costs 0 (peek f) fun _ => 0 :=
  consumesMono consumesPeek fun _ _ _ => Nat.zero_le _

theorem costsSpan (n : Nat) : Costs 0 (readUint8Span n) fun bytes => 8 * bytes.length :=
  consumesMono (consumesSpan n) fun _ _ ⟨_, bits⟩ => by rw [bits, bytesBitsLength, Nat.zero_add]

theorem costsTrailing : Costs 0 readTrailing fun bytes => 8 * bytes.length :=
  costsBind costsRemaining fun n => costsSpan n

theorem costsLocalized : Costs 0 readLocalized fun bytes => 8 * (1 + bytes.length) := by
  refine costsReturn (costsBind costsPosition fun start => ?_)
  refine consumesMono (consumesStringFrom start maxStringBytes []) fun v bs ⟨payload, same, _, _, bits⟩ => ?_
  rw [bits, bytesBitsLength, List.length_append, List.length_singleton, same, List.nil_append]
  simp only [List.dropLast_concat]
  omega

theorem costsBounded {T : Type} {item : Reader T} {size : T → Nat} (each : Costs 0 item fun v => 8 * (1 + size v))
    (count start : Nat) : Costs 0 (readBounded item count start) fun vs => 8 * listSizeOf size vs := by
  refine costsBind costsRemaining fun remaining => costsEnsure fun _ => costsLast (costsMany each count) fun vs => ?_
  rw [listSizeOf, ← List.sum_map_mul_left]
  exact Nat.le_add_left _ _

section

variable [UlebForm]

theorem costsUleb128 : Costs 0 readUleb128 fun _ => 8 :=
  consumesMono consumesUlebBits fun _ _ ⟨n, positive, _, _, bits, _⟩ => by
    rw [bits, ulebBitsLength, Nat.zero_add]
    exact Nat.mul_le_mul_left 8 positive

theorem costsCounted {T : Type} {item : Reader T} {size : T → Nat} (each : Costs 0 item fun v => 8 * (1 + size v)) :
    Costs 0 (readCounted item) fun vs => 8 * (1 + listSizeOf size vs) := by
  refine costsBind costsPosition fun start => costsBind costsUleb128 fun count => ?_
  exact costsLast (costsBounded each count.toNat start) fun vs => by omega

theorem costsIds : Costs 0 (readCounted readUleb128) fun ids => 8 * (1 + ids.length) := by
  have each : Costs 0 readUleb128 fun _ : UInt32 => 8 * (1 + 0) := costsUleb128
  simpa only [listSizeOfNone] using costsCounted each

theorem costsParamDefinition : Costs 0 readParamDefinition fun d => 8 * (1 + d.listSize) := by
  refine costsBind costsUleb128 fun id => costsBind costsUleb128 fun rate => costsBind costsBool fun mode => ?_
  refine costsBind (costsU8 7) fun reserved => ?_
  split
  · exact costsPure (by simp [ParamDefinition.listSize])
  · refine costsBind (c := fun fields => 8 * (1 + fields.subblockDurations.length)) ?_ fun fields => ?_
    · refine costsBind costsUleb128 fun duration => costsBind costsUleb128 fun constant => ?_
      refine costsBind (c := fun durations => 8 * durations.length) ?_ fun durations => costsPure (by simp only; omega)
      unfold readSubblockDurations
      split
      · exact costsLast costsIds fun durations => by omega
      · exact costsPure (Nat.le_refl 0)
    · exact costsPure (by simp only [ParamDefinition.listSize, Option.elim_some]; omega)

theorem costsMixGainParamDefinition : Costs 0 readMixGainParamDefinition fun v => 8 * (1 + v.definition.listSize) :=
  costsBind costsParamDefinition fun definition => costsBind costsI16 fun gain => costsPure (by simp only; omega)

theorem costsAudioElementParam : Costs 0 readAudioElementParam fun v => 8 * (1 + v.listSize) := by
  refine costsBind costsUleb128 fun type => ?_
  split
  · refine costsBind costsParamDefinition fun definition => costsBind (costsU8 3) fun mode => ?_
    refine costsBind (costsU8 5) fun reserved => costsBind (costsU8 4) fun w => costsBind (costsU8 4) fun unused => ?_
    exact costsPure (by simp only [AudioElementParam.listSize]; omega)
  · split
    · refine costsBind costsParamDefinition fun definition => costsPure ?_
      simp only [AudioElementParam.listSize]
      omega
    · refine costsBind costsUleb128 fun size => costsBind (costsSpan size.toNat) fun bytes => costsPure ?_
      simp only [AudioElementParam.listSize]
      omega

theorem costsAmbisonicsConfig : Costs 0 readAmbisonicsConfig fun v => 8 * v.listSize := by
  refine costsBind costsPosition fun start => costsBind costsUleb128 fun mode => ?_
  split
  · refine costsBind (costsU8 8) fun outputs => costsBind (costsU8 8) fun substreams => ?_
    refine costsBind costsRemaining fun remaining => costsEnsure fun _ => ?_
    refine costsBind (costsSpan outputs.toNat) fun mapping => costsPure ?_
    simp only [AmbisonicsConfig.listSize]
    omega
  · split
    · refine costsBind (costsU8 8) fun outputs => costsBind (costsU8 8) fun substreams => ?_
      refine costsBind (costsU8 8) fun coupled => costsBind costsRemaining fun remaining => costsEnsure fun _ => ?_
      refine costsBind (costsMany costsI16 _) fun matrix => costsPure ?_
      simp only [AmbisonicsConfig.listSize, List.map_const', List.sum_replicate, smul_eq_mul]
      omega
    · exact costsPure (by simp only [AmbisonicsConfig.listSize]; omega)

end

theorem costsOutputGain (present : Bool) : Costs 0 (readOutputGain present) fun _ => 0 := by
  unfold readOutputGain
  split
  · refine costsBind (costsU8 6) fun flags => costsBind (costsU8 2) fun reserved => ?_
    exact costsBind costsI16 fun gain => costsPure (Nat.zero_le _)
  · exact costsPure (Nat.le_refl 0)

theorem costsLoudspeakerLayout (layoutBits : UInt8) : Costs 0 (readLoudspeakerLayout layoutBits) fun _ => 0 := by
  unfold readLoudspeakerLayout
  split
  · exact costsPure (Nat.le_refl 0)
  · exact costsBind (costsU8 8) fun expanded => costsPure (Nat.zero_le _)

theorem costsLayer : Costs 0 readChannelAudioLayerConfig fun _ => 8 * (1 + 0) := by
  refine costsBind (costsU8 4) fun layoutBits => costsBind costsBool fun gainPresent => ?_
  refine costsBind costsBool fun reconPresent => costsBind (costsU8 2) fun reserved => ?_
  refine costsBind (costsU8 8) fun substreams => costsBind (costsU8 8) fun coupled => ?_
  refine costsBind (costsOutputGain gainPresent) fun gain => costsBind (costsLoudspeakerLayout layoutBits) fun layout => ?_
  exact costsPure (by omega)

theorem costsScalableChannelLayoutConfig : Costs 0 readScalableChannelLayoutConfig fun v => 8 * v.layers.length := by
  refine costsBind costsPosition fun start => costsBind (costsUnsigned 3) fun count => ?_
  refine costsBind (costsU8 5) fun reserved => costsBind (costsBounded costsLayer count start) fun layers => ?_
  rw [listSizeOfNone]
  exact costsPure (by simp only; omega)

section

variable [UlebForm]

theorem costsAudioElementType (type : UInt8) : Costs 0 (readAudioElementType type) fun v => 8 * v.listSize := by
  unfold readAudioElementType
  split
  · exact costsReturn costsScalableChannelLayoutConfig
  · split
    · exact costsReturn costsAmbisonicsConfig
    · exact costsReturn costsTrailing

theorem costsAudioElement : Costs 0 readAudioElement fun v => 8 * v.listSize := by
  refine costsBind (c := fun v => 8 * v.listSize) ?_ fun element => costsBind costsTrailing fun trailing => costsPure ?_
  · refine costsBind costsUleb128 fun id => costsBind (costsU8 3) fun type => costsBind (costsU8 5) fun reserved => ?_
    refine costsBind costsUleb128 fun config => costsBind costsIds fun ids => ?_
    refine costsBind (costsCounted costsAudioElementParam) fun params => ?_
    refine costsBind (costsAudioElementType type) fun config => costsPure ?_
    simp only [AudioElement.listSize, List.length_nil]
    omega
  · simp only [AudioElement.listSize]
    omega

end

theorem costsLpcm : Costs 0 readLpcmDecoderConfig fun _ => 0 := by
  refine costsBind (costsU8 8) fun flags => costsBind (costsU8 8) fun size => ?_
  exact costsBind (costsU32 32) fun rate => costsPure (Nat.zero_le _)

theorem costsOpus : Costs 0 readOpusDecoderConfig fun _ => 0 := by
  refine costsBind (costsU8 8) fun version => costsBind (costsU8 8) fun channels => ?_
  refine costsBind (costsU16 16) fun skip => costsBind (costsU32 32) fun rate => costsBind costsI16 fun gain => ?_
  exact costsBind (costsU8 8) fun mapping => costsPure (Nat.zero_le _)

theorem costsFlac : Costs 0 readFlacDecoderConfig fun _ => 0 := by
  refine costsBind costsBool fun last => costsBind (costsU8 7) fun type => costsBind (costsU32 24) fun length => ?_
  refine costsBind (costsU16 16) fun least => costsBind (costsU16 16) fun most => ?_
  refine costsBind (costsU32 24) fun smallest => costsBind (costsU32 24) fun largest => ?_
  refine costsBind (costsU32 20) fun rate => costsBind (costsU8 3) fun channels => costsBind (costsU8 5) fun bits => ?_
  exact costsBind (costsU64 36) fun samples => costsBind (costsArray 16) fun md5 => costsPure (Nat.zero_le _)

theorem costsDecoderConfig (codecId : CodecId) : Costs 0 (readDecoderConfig codecId) fun v => 8 * v.listSize := by
  refine costsBind costsRemaining fun remaining => ?_
  split
  · exact costsBind costsLpcm fun cfg => costsPure (Nat.zero_le _)
  split
  · exact costsBind costsFlac fun cfg => costsPure (Nat.zero_le _)
  split
  · exact costsBind costsOpus fun cfg => costsPure (Nat.zero_le _)
  split
  · refine costsBind (costsSpan aacLcDecoderConfigBytes) fun descriptor => ?_
    split
    · refine consumesOrThrow fun v read => ?_
      unfold readAacLcDecoderConfig at read
      split at read
      · cases read
        exact Nat.zero_le _
      · cases read
    · refine costsBind costsTrailing fun more => costsPure ?_
      simp only [DecoderConfig.listSize, List.length_append]
      omega
  · exact costsBind costsTrailing fun bytes => costsPure (by simp only [DecoderConfig.listSize]; omega)

theorem costsStrings (count : Nat) : Costs 0 (readStrings count) fun vs => 8 * listSizeOf List.length vs :=
  costsBind costsPosition fun start => costsBounded costsLocalized count start

theorem costsTruePeak (infoType : UInt8) : Costs 0 (readTruePeak infoType) fun _ => 0 := by
  unfold readTruePeak
  split
  · exact costsPure (Nat.le_refl 0)
  · exact costsBind costsI16 fun peak => costsPure (Nat.zero_le _)

theorem costsAnchored (infoType : UInt8) :
    Costs 0 (readAnchored infoType) fun v => 8 * v.elim 0 (·.anchorElements.length) := by
  unfold readAnchored
  split
  · exact costsPure (Nat.le_refl 0)
  · have anchor : Costs 0 readAnchorElement fun _ => 8 :=
      costsBind (costsU8 8) fun element => costsBind costsI16 fun loudness => costsPure (by omega)
    refine costsBind costsPosition fun start => costsBind (costsU8 8) fun count => ?_
    refine costsBind costsRemaining fun remaining => costsEnsure fun _ => ?_
    refine costsBind (costsMany anchor count.toNat) fun elements => costsPure ?_
    simp only [Option.elim_some, List.map_const', List.sum_replicate, smul_eq_mul]
    omega

theorem costsLayout (layoutType : UInt8) : Costs 0 (readLayout layoutType) fun _ => 6 := by
  unfold readLayout
  split
  · exact costsBind (costsU8 4) fun system => costsBind (costsU8 2) fun reserved => costsPure (Nat.le_refl _)
  · exact costsBind (costsU8 6) fun reserved => costsPure (Nat.le_refl _)

section

variable [UlebForm]

theorem costsCodecConfig : Costs 0 readCodecConfig fun v => 8 * v.listSize := by
  refine costsBind (c := fun v => 8 * v.listSize) ?_ fun config => costsBind costsTrailing fun trailing => costsPure ?_
  · refine costsBind costsUleb128 fun id => costsBind (costsArray 4) fun codecId => ?_
    refine costsBind costsUleb128 fun samples => costsBind costsI16 fun roll => ?_
    refine costsBind (costsDecoderConfig codecId) fun config => costsPure ?_
    simp only [CodecConfig.listSize, List.length_nil]
    omega
  · simp only [CodecConfig.listSize]
    omega

theorem costsRenderingConfig : Costs 0 readRenderingConfig fun v => 8 * v.extension.length := by
  refine costsBind (costsU8 2) fun mode => costsBind (costsU8 6) fun reserved => ?_
  refine costsBind costsUleb128 fun size => costsBind (costsSpan size.toNat) fun extension => costsPure ?_
  simp only
  omega

theorem costsSubMixAudioElement (countLabel : Nat) :
    Costs 0 (readSubMixAudioElement countLabel) fun v => 8 * (1 + v.listSize) := by
  refine costsBind costsUleb128 fun id => costsBind (costsStrings countLabel) fun annotations => ?_
  refine costsBind costsRenderingConfig fun rendering => costsBind costsMixGainParamDefinition fun gain => costsPure ?_
  simp only [SubMixAudioElement.listSize]
  omega

theorem costsLoudnessExtension (infoType : UInt8) :
    Costs 0 (readLoudnessExtension infoType) fun v => 8 * v.elim 0 (·.bytes.length) := by
  unfold readLoudnessExtension
  split
  · exact costsPure (Nat.le_refl 0)
  · refine costsBind costsUleb128 fun size => costsBind (costsSpan size.toNat) fun bytes => costsPure ?_
    simp only [Option.elim_some]
    omega

theorem costsBoundedCount : Costs 0 readBoundedCount fun _ => 8 := by
  refine costsBind costsPosition fun start => costsBind costsUleb128 fun count => ?_
  exact costsBind costsRemaining fun remaining => costsEnsure fun _ => costsPure (Nat.le_refl _)

theorem costsLoudness : Costs 0 readLoudness fun v => 8 * v.listSize := by
  refine costsBind (costsU8 8) fun info => costsBind costsI16 fun integrated => costsBind costsI16 fun peak => ?_
  refine costsBind (costsTruePeak info) fun truePeak => costsBind (costsAnchored info) fun anchored => ?_
  refine costsBind (costsLoudnessExtension info) fun extension => costsPure ?_
  simp only [Loudness.listSize]
  omega

theorem costsLayoutWithLoudness : Costs 0 readLayoutWithLoudness fun v => 8 * (1 + v.loudness.listSize) := by
  refine costsBind (costsU8 2) fun type => costsBind (costsLayout type) fun parts => ?_
  obtain ⟨layout, reserved⟩ := parts
  refine costsBind costsLoudness fun loudness => costsPure ?_
  simp only
  omega

theorem costsSubMix (countLabel : Nat) : Costs 0 (readSubMix countLabel) fun v => 8 * (1 + v.listSize) := by
  refine costsBind (costsCounted (costsSubMixAudioElement countLabel)) fun elements => ?_
  refine costsBind costsMixGainParamDefinition fun gain => costsBind (costsCounted costsLayoutWithLoudness) fun layouts => ?_
  refine costsPure ?_
  simp only [SubMix.listSize]
  omega

theorem costsMixPresentation : Costs 0 readMixPresentation fun v => 8 * v.listSize := by
  refine costsBind (c := fun v => 8 * v.listSize) ?_ fun presentation =>
    costsBind costsTrailing fun trailing => costsPure ?_
  · refine costsBind costsUleb128 fun id => costsBind costsBoundedCount fun countLabel => ?_
    refine costsBind (costsStrings countLabel) fun languages => costsBind (costsStrings countLabel) fun annotations => ?_
    refine costsBind (costsCounted (costsSubMix countLabel)) fun subMixes => costsPure ?_
    simp only [MixPresentation.listSize, List.length_nil]
    omega
  · simp only [MixPresentation.listSize]
    omega

end

def ParameterDataContext.layers : ParameterDataContext → Nat
  | .reconGain present => present.length
  | _ => 0

def ParameterDataContext.free : ParameterDataContext → Nat
  | .reconGain present => 1 + present.length
  | _ => 0

def ParamDefinitionRegistry.layers (registry : ParamDefinitionRegistry) (parameterId : UInt32) : Nat :=
  (registry.get parameterId).elim 0 (·.context.layers)

theorem costsGain (flag : UInt32) (index : Nat) : Costs 0 (readGain flag index) fun _ => 0 := by
  unfold readGain
  split
  · exact costsLast (costsU8 8) fun _ => Nat.zero_le _
  · exact costsPure (Nat.le_refl 0)

theorem costsGains (flag : UInt32) (n index : Nat) : Costs 0 (readGains flag n index) fun _ => 0 := by
  induction n generalizing index with
  | zero => exact costsPure (Nat.le_refl 0)
  | succ n ih => exact costsBind (costsGain flag index) fun value => costsBind (ih _) fun gains => costsPure (Nat.zero_le _)

theorem costsMixGainParameterData (animation : AnimationType) (start : Nat) :
    Costs 0 (readMixGainParameterData animation start) fun _ => 0 := by
  cases animation with
  | step => exact costsBind costsI16 fun first => costsPure (Nat.zero_le _)
  | linear => exact costsBind costsI16 fun first => costsBind costsI16 fun last => costsPure (Nat.zero_le _)
  | bezier =>
    refine costsBind costsI16 fun first => costsBind costsI16 fun last => costsBind costsI16 fun control => ?_
    exact costsBind (costsU8 8) fun time => costsPure (Nat.zero_le _)
  | reserved raw => exact costsThrow _ _

theorem singleSubblockFree {context : ParameterDataContext} {n : Nat} {at' : Location}
    (single : checkSingleSubblock context n at' = .ok ()) : n * context.free ≤ 1 + context.layers := by
  cases context with
  | reconGain present =>
    rw [checkSingleSubblockOk.mp single rfl, Nat.one_mul]
    exact Nat.le_refl _
  | _ => exact Nat.zero_le _

section

variable [UlebForm]

theorem costsReconGainLayer (present : Bool) : Costs 0 (readReconGainLayer present) fun _ => 0 := by
  unfold readReconGainLayer
  split
  · exact costsBind costsUleb128 fun flag => costsBind (costsGains flag 12 0) fun gains => costsPure (Nat.zero_le _)
  · exact costsPure (Nat.le_refl 0)

theorem costsReconGainLayers (present : List Bool) :
    Costs 0 (readReconGainLayers present) fun layers => 8 * layers.length - 8 * present.length := by
  induction present with
  | nil => exact costsPure (Nat.zero_le _)
  | cons here others ih =>
    refine costsBind (costsReconGainLayer here) fun layer => costsBind ih fun layers => costsPure ?_
    simp only [List.length_cons]
    omega

theorem costsParameterData (context : ParameterDataContext) :
    Costs 0 (readParameterData context) fun v => 8 * (1 + v.listSize) - 8 * context.free := by
  refine costsBind costsPosition fun start => ?_
  cases context with
  | mixGain =>
    refine costsBind costsUleb128 fun animation => ?_
    refine costsBind (costsMixGainParameterData (.fromValue animation) start) fun data => costsPure ?_
    simp only [ParameterData.listSize]
    omega
  | demixing =>
    refine costsBind (costsU8 3) fun mode => costsBind (costsU8 5) fun reserved => costsPure ?_
    simp only [ParameterData.listSize]
    omega
  | reconGain present =>
    refine costsBind (costsReconGainLayers present) fun layers => costsPure ?_
    simp only [ParameterData.listSize, ParameterDataContext.free]
    omega
  | reserved value =>
    refine costsEnsure fun _ => costsBind costsUleb128 fun size => costsBind (costsSpan size.toNat) fun bytes => ?_
    refine costsPure ?_
    simp only [ParameterData.listSize]
    omega

theorem costsSubblockDuration (included : Bool) : Costs 0 (readSubblockDuration included) fun _ => 0 := by
  unfold readSubblockDuration
  split
  · exact costsBind costsUleb128 fun value => costsPure (Nat.zero_le _)
  · exact costsPure (Nat.le_refl 0)

theorem costsSubblocks (included : Bool) (context : ParameterDataContext) (start n total : Nat) :
    Costs 0 (readSubblocks included context start n total) fun read =>
      8 * listSizeOf (·.data.listSize) read.1 - 8 * (n * context.free) := by
  induction n generalizing total with
  | zero =>
    refine costsPure ?_
    rw [listSizeOfNil]
    omega
  | succ n ih =>
    refine costsBind (costsSubblockDuration included) fun duration => costsOrThrow fun total _ => ?_
    refine costsBind (costsParameterData context) fun data => costsBind (ih total) fun read => ?_
    obtain ⟨subblocks, total⟩ := read
    have split := Nat.add_one_mul n context.free
    refine costsPure ?_
    simp only [listSizeOfCons]
    omega

theorem costsBlockDurations (definition : ParamDefinition) (start : Nat) :
    Costs 0 (readBlockDurations definition start) fun _ => 0 := by
  unfold readBlockDurations
  split
  · refine costsBind costsUleb128 fun duration => costsBind costsUleb128 fun constant => ?_
    refine costsBind (c := fun _ => 0) ?_ fun count => costsPure (Nat.zero_le _)
    unfold readNumSubblocks
    split
    · exact costsLast costsUleb128 fun _ => Nat.zero_le _
    · exact consumesOrThrow fun _ _ => Nat.zero_le _
  · exact costsOrThrow fun count _ => costsPure (Nat.zero_le _)

theorem costsParameterBlock (registry : ParamDefinitionRegistry) :
    Costs 0 (readParameterBlock registry) fun v => 8 * v.listSize - 8 * registry.layers v.parameterId := by
  refine costsBind costsPosition fun start => costsBind costsPeek fun peeked => costsOrThrow fun registered found => ?_
  refine costsBind costsUleb128 fun id => costsEnsure fun same => ?_
  have known : registry.layers id = registered.context.layers := by
    cases entry : registry.get peeked with
    | none =>
      rw [entry] at found
      cases found
    | some other =>
      rw [entry] at found
      cases found
      have id' : id = peeked := (beq_iff_eq.mp same).trans (ParamDefinitionRegistry.getId entry)
      unfold ParamDefinitionRegistry.layers
      rw [id', entry]
      rfl
  refine costsBind (costsBlockDurations registered.definition start) fun durations => ?_
  obtain ⟨fields, count⟩ := durations
  refine costsOrThrow fun _ single => costsBind costsRemaining fun remaining => costsEnsure fun _ => ?_
  refine costsBind (costsSubblocks _ registered.context start count.toNat 0) fun read => ?_
  obtain ⟨subblocks, total⟩ := read
  have free := singleSubblockFree single
  refine costsEnsure fun _ => costsPure ?_
  simp only [ParameterBlock.listSize, known]
  omega

end

def consumedBytes (r r' : BitCursor) : Nat := (r'.position - r.position) / 8

theorem costsConsumed {T : Type} {f : Reader T} {cost : T → Nat} (costs : Costs 0 f cost) {r r' : BitCursor} {v : T}
    (ok : f r = .ok v r') : cost v ≤ r'.position - r.position := by
  obtain ⟨bs, tail, split, rfl, within⟩ := costs r v r' ok
  have inside : bs.length ≤ r.rest.length := by
    have length := congrArg List.length split
    rw [List.length_append] at length
    exact Nat.le.intro length.symm
  have moved : (ReadTape.advance bs.length r).position = r.position + bs.length := BitCursor.advancePosition inside
  omega

theorem decodedSizeBounded :
    (∀ r v r', readCodecConfig r = .ok v r' → v.listSize ≤ consumedBytes r r') ∧
    (∀ r v r', readAudioElement r = .ok v r' → v.listSize ≤ consumedBytes r r') ∧
    (∀ r v r', readMixPresentation r = .ok v r' → v.listSize ≤ consumedBytes r r') ∧
    ∀ registry r v r', readParameterBlock registry r = .ok v r' →
      v.listSize ≤ consumedBytes r r' + registry.layers v.parameterId := by
  unfold consumedBytes
  refine ⟨fun r v r' ok => ?_, fun r v r' ok => ?_, fun r v r' ok => ?_, fun registry r v r' ok => ?_⟩
  · have within := costsConsumed costsCodecConfig ok
    omega
  · have within := costsConsumed costsAudioElement ok
    omega
  · have within := costsConsumed costsMixPresentation ok
    omega
  · have within := costsConsumed (costsParameterBlock registry) ok
    omega

-- five layers, of which the block carries none: six elements out of three bytes
def absentLayers : ParamDefinitionRegistry := ⟨[⟨.mode1 5 48000, .reconGain (List.replicate 5 false)⟩]⟩

def absentBlock : ParameterBlock := ⟨5, some ⟨1, 1⟩, [⟨none, .reconGain ⟨List.replicate 5 none⟩⟩]⟩

theorem decodedSizeBoundedAbsent : ∃ v r', readParameterBlock absentLayers (.new [5, 1, 1]) = .ok v r' ∧
    v.listSize = 6 ∧ v.listSize ≤ consumedBytes (.new [5, 1, 1]) r' + absentLayers.layers v.parameterId := by
  have read : (readParameterBlock absentLayers).run' (.new [5, 1, 1]) = some absentBlock := by decide +kernel
  cases ok : readParameterBlock absentLayers (.new [5, 1, 1]) with
  | error e s =>
    rw [EStateM.run', EStateM.run, ok] at read
    cases read
  | ok v r' =>
    rw [EStateM.run', EStateM.run, ok] at read
    cases read
    exact ⟨_, _, rfl, rfl, decodedSizeBounded.2.2.2 _ _ _ _ ok⟩

end Iamf.Wire
