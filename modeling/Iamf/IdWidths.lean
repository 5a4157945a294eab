import Iamf.BuiltEncoder
import Iamf.Resized

/-! How the ids of a descriptor show in the length of its payload: descriptors that differ in their
ids only are written or refused together, and their lengths differ as the widths of the ids do. -/
namespace Iamf.Wire
open Bits BitString TapeCodec

theorem definiteUnsigned {n : Nat} (width : n < 64) (v : Nat) : Definite (writeUnsigned v n) := by
  by_cases small : v < 2 ^ n
  · exact definiteEmits (emitsUnsigned (Nat.le_of_lt width) small)
  · exact definiteRefuses (refusesUnsigned width (Nat.le_of_not_lt small))

theorem definiteUleb128 (v : UInt32) : Definite (writeUleb128Minimal v) := definiteEmits (emitsUleb128 v)

theorem definiteI16 (v : Int16) : Definite (writeSigned v.toInt 16) := definiteOfPaired (pairedI16 0 v)

theorem definiteBytes (bytes : Bytes) : Definite (writeBytes bytes) := definiteEmits (emitsBytes bytes)

theorem definiteString (payload : Bytes) : Definite (writeString payload) := definiteOfPaired (pairedString 0 payload)

theorem definiteCount (count : Nat) (field : String) : Definite (writeCount count field) :=
  definiteOfPaired (pairedCountAlone 0 count field)

theorem definiteCounted {T : Type} {item : T → Writer Unit} (each : ∀ v, Definite (item v)) (vs : List T)
    (field : String) : Definite (writeCounted item vs field) :=
  definiteBind (definiteCount vs.length field) (definiteEach each vs)

theorem definiteRenderingConfig (v : RenderingConfig) : Definite (writeRenderingConfig v) := by
  refine definiteBind (definiteUnsigned (by omega) _) ?_
  refine definiteBind (definiteUnsigned (by omega) _) ?_
  exact definiteBind (definiteCount _ _) (definiteBytes v.extension)

theorem definiteLayout (layout : Layout) (reserved : UInt8) : Definite (writeLayout layout reserved) := by
  unfold writeLayout
  cases layout.soundSystem? with
  | none => exact definiteUnsigned (by omega) _
  | some soundSystem => exact definiteBind (definiteUnsigned (by omega) _) (definiteUnsigned (by omega) _)

theorem definiteLayoutWithLoudness (v : LayoutWithLoudness) : Definite (writeLayoutWithLoudness v) := by
  refine definiteBind (definiteEnsure _ _) ?_
  refine definiteBind (definiteUnsigned (by omega) _) ?_
  exact definiteBind (definiteLayout v.layout v.reserved) (definiteOfPaired (pairedLoudness v.loudness))

theorem definiteLayerConfig (v : ChannelAudioLayerConfig) : Definite (writeChannelAudioLayerConfig v) := by
  refine definiteBind (definiteUnsigned (by omega) _) ?_
  refine definiteBind (definiteOfPaired (pairedBool 0 v.outputGain.isSome)) ?_
  refine definiteBind (definiteOfPaired (pairedBool 0 v.reconGainIsPresent)) ?_
  refine definiteBind (definiteUnsigned (by omega) _) ?_
  refine definiteBind (definiteUnsigned (by omega) _) ?_
  refine definiteBind (definiteUnsigned (by omega) _) ?_
  refine definiteBind (definiteOfPaired (pairedOutputGain v.outputGain)) ?_
  cases v.loudspeakerLayout.expandedLayout with
  | none => exact definitePure
  | some expanded => exact definiteUnsigned (by omega) _

theorem definiteElementType (v : AudioElementType) : Definite (writeAudioElementType v) := by
  cases v with
  | channelBased config =>
    refine definiteBind (definiteUnsigned (by omega) config.layers.length) ?_
    exact definiteBind (definiteUnsigned (by omega) _) (definiteEach definiteLayerConfig config.layers)
  | sceneBased config => exact definiteOfPaired (pairedAmbisonicsConfig config)
  | reserved value raw => exact definiteBytes raw

theorem definiteDecoderConfig (v : DecoderConfig) : Definite (writeDecoderConfig v) := by
  cases v with
  | lpcm cfg =>
    refine definiteBind (definiteUnsigned (by omega) _) ?_
    refine definiteBind (definiteUnsigned (by omega) _) ?_
    exact definiteUnsigned (by omega) _
  | flac cfg => exact definiteOfPaired (pairedFlac cfg)
  | opus cfg => exact definiteOfPaired (pairedOpus cfg)
  | aacLc cfg => exact definiteOfPaired (pairedAacLcFields cfg)
  | raw codecId bytes => exact definiteBytes bytes

theorem definiteDurationFields (v : Option DurationFields) : Definite (writeDurationFields v) := by
  cases v with
  | none => exact definitePure
  | some fields =>
    refine definiteBind (definiteUleb128 fields.duration) (definiteBind (definiteUleb128 _) ?_)
    unfold writeSubblockDurations
    split_ifs
    · exact definiteCounted definiteUleb128 fields.subblockDurations _
    · exact definitePure

def idBytes (ids : List UInt32) : Nat := (ids.map fun id => minimalLen id.toNat).sum

theorem idBytesCons (id : UInt32) (ids : List UInt32) : idBytes (id :: ids) = minimalLen id.toNat + idBytes ids := rfl

theorem idBytesAppend (xs ys : List UInt32) : idBytes (xs ++ ys) = idBytes xs + idBytes ys := by
  simp only [idBytes, List.map_append, List.sum_append]

theorem gainIdsAppend (xs ys : List MixGainParamDefinition) : gainIds (xs ++ ys) = gainIds xs ++ gainIds ys :=
  List.map_append

theorem idBytesLong (ids : List UInt32) : ids.length ≤ idBytes ids := by
  induction ids with
  | nil => exact Nat.le_refl 0
  | cons id ids ih =>
    have one := (minimalLenRange id.toNat).1
    rw [List.length_cons, idBytesCons]
    omega

theorem idBytesSmall {ids : List UInt32} (small : ∀ id ∈ ids, id.toNat < 128) : idBytes ids = ids.length := by
  induction ids with
  | nil => rfl
  | cons id ids ih =>
    have first := small id List.mem_cons_self
    have one : minimalLen id.toNat ≤ 1 := minimalLenLeast (Nat.le_refl 1) first
    have range := (minimalLenRange id.toNat).1
    rw [idBytesCons, ih fun other among => small other (List.mem_cons_of_mem id among), List.length_cons]
    omega

theorem resizedId (a b : UInt32) :
    Resized (minimalLen a.toNat) (minimalLen b.toNat) (writeUleb128Minimal a) (writeUleb128Minimal b) := by
  refine .inr ⟨_, _, emitsUleb128 a, emitsUleb128 b, ?_⟩
  rw [ulebBitsLength, ulebBitsLength]
  omega

theorem resizedIds {xs ys : List UInt32} (same : xs.length = ys.length) (field : String) :
    Resized (idBytes xs) (idBytes ys) (writeCounted writeUleb128Minimal xs field)
      (writeCounted writeUleb128Minimal ys field) := by
  unfold writeCounted
  rw [same]
  refine resizedBehind (definiteCount _ _) (resizedEach ?_)
  have equal : xs.map (fun _ => ()) = ys.map fun _ => () := by
    rw [List.map_const', List.map_const', same]
  exact forallOfMap (fun a b _ => resizedId a b) equal

namespace CodecConfig

theorem resized {v u : CodecConfig} (same : v.anonymous = u.anonymous) :
    Resized (idBytes [v.codecConfigId]) (idBytes [u.codecConfigId]) (writeCodecConfig v) (writeCodecConfig u) := by
  obtain ⟨a, codecId, samples, roll, decoder, trailing⟩ := v
  obtain ⟨b, _, _, _, _, _⟩ := u
  cases same
  refine resizedBefore (resizedId a b) ?_
  refine definiteBind (definiteBytes _) ?_
  refine definiteBind (definiteUleb128 samples) ?_
  refine definiteBind (definiteI16 roll) ?_
  exact definiteBind (definiteDecoderConfig decoder) (definiteBytes trailing)

end CodecConfig

namespace AudioElement

def ids (v : AudioElement) : List UInt32 := v.audioElementId :: v.codecConfigId :: v.audioSubstreamIds

theorem resized {v u : AudioElement} (same : v.anonymous = u.anonymous) :
    Resized (idBytes v.ids) (idBytes u.ids) (writeAudioElement v) (writeAudioElement u) := by
  obtain ⟨a, reserved, kind, codec, substreams, params, trailing⟩ := v
  obtain ⟨b, _, _, codec', substreams', _, _⟩ := u
  have count : substreams.length = substreams'.length := by
    have lengths := congrArg (fun e : AudioElement => e.audioSubstreamIds.length) same
    simpa only [anonymous, List.length_map] using lengths
  injection same with _ sameReserved sameKind _ _ sameParams sameTrailing
  subst sameReserved sameKind sameParams sameTrailing
  refine resizedBehind (definiteEnsure _ _) (resizedBind (resizedId a b) ?_)
  refine resizedBehind (definiteUnsigned (by omega) _) (resizedBehind (definiteUnsigned (by omega) _) ?_)
  refine resizedBind (resizedId codec codec') (resizedBefore (resizedIds count _) ?_)
  refine definiteBind (definiteCounted (fun param => definiteOfPaired (pairedAudioElementParam param)) params _) ?_
  exact definiteBind (definiteElementType kind) (definiteBytes trailing)

end AudioElement

namespace MixGainParamDefinition

def idWidth (v : MixGainParamDefinition) : Nat := minimalLen v.definition.parameterId.toNat

theorem resized {v u : MixGainParamDefinition} (same : v.anonymous = u.anonymous) :
    Resized v.idWidth u.idWidth (writeMixGainParamDefinition v) (writeMixGainParamDefinition u) := by
  obtain ⟨⟨a, rate, reserved, durations⟩, gain⟩ := v
  obtain ⟨⟨b, _, _, _⟩, _⟩ := u
  cases same
  refine resizedBefore (resizedBehind (definiteEnsure _ _) (resizedBefore (resizedId a b) ?_)) (definiteI16 gain)
  refine definiteBind (definiteUleb128 rate) ?_
  refine definiteBind (definiteOfPaired (pairedBool 0 _)) ?_
  exact definiteBind (definiteUnsigned (by omega) _) (definiteDurationFields durations)

end MixGainParamDefinition

namespace SubMixAudioElement

def idWidth (v : SubMixAudioElement) : Nat := minimalLen v.audioElementId.toNat + v.elementMixGain.idWidth

theorem resized {v u : SubMixAudioElement} (same : v.anonymous = u.anonymous) :
    Resized v.idWidth u.idWidth (writeSubMixAudioElement v) (writeSubMixAudioElement u) := by
  obtain ⟨a, annotations, rendering, gain⟩ := v
  obtain ⟨b, _, _, gain'⟩ := u
  injection same with _ sameAnnotations sameRendering sameGain
  subst sameAnnotations sameRendering
  refine resizedBind (resizedId a b) (resizedBehind (definiteEach definiteString annotations) ?_)
  exact resizedBehind (definiteRenderingConfig rendering) (MixGainParamDefinition.resized sameGain)

end SubMixAudioElement

namespace SubMix

def idWidth (v : SubMix) : Nat := (v.elements.map (·.idWidth)).sum + v.outputMixGain.idWidth

theorem resized {v u : SubMix} (same : v.anonymous = u.anonymous) :
    Resized v.idWidth u.idWidth (writeSubMix v) (writeSubMix u) := by
  obtain ⟨elements, output, layouts⟩ := v
  obtain ⟨elements', output', _⟩ := u
  injection same with sameElements sameOutput sameLayouts
  subst sameLayouts
  have each := forallOfMap (fun a b alike => SubMixAudioElement.resized (v := a) (u := b) alike) sameElements
  have counted : Resized (elements.map (·.idWidth)).sum (elements'.map (·.idWidth)).sum
      (writeCounted writeSubMixAudioElement elements "num_audio_elements")
      (writeCounted writeSubMixAudioElement elements' "num_audio_elements") := by
    unfold writeCounted
    rw [anonymousLength sameElements]
    exact resizedBehind (definiteCount _ _) (resizedEach each)
  refine resizedBind counted (resizedBefore (MixGainParamDefinition.resized sameOutput) ?_)
  exact definiteCounted definiteLayoutWithLoudness layouts _

theorem idWidthIs (v : SubMix) :
    v.idWidth = idBytes (v.elements.map (·.audioElementId)) + idBytes (gainIds v.gains) := by
  have elements (vs : List SubMixAudioElement) : (vs.map (·.idWidth)).sum =
      idBytes (vs.map (·.audioElementId)) + idBytes (gainIds (vs.map (·.elementMixGain))) := by
    induction vs with
    | nil => rfl
    | cons first vs ih =>
      simp only [List.map_cons, List.sum_cons, gainIds, idBytesCons, SubMixAudioElement.idWidth,
        MixGainParamDefinition.idWidth] at ih ⊢
      omega
  rw [idWidth, elements, gains, gainIdsAppend, idBytesAppend, Nat.add_assoc]
  rfl

end SubMix

namespace MixPresentation

def ids (v : MixPresentation) : List UInt32 := v.mixPresentationId :: (v.references ++ gainIds v.gains)

theorem idsBytes (v : MixPresentation) :
    idBytes v.ids = minimalLen v.mixPresentationId.toNat + (v.subMixes.map (·.idWidth)).sum := by
  have subMixes (vs : List SubMix) : (vs.map (·.idWidth)).sum =
      idBytes (vs.flatMap fun subMix => subMix.elements.map (·.audioElementId)) +
        idBytes (gainIds (vs.flatMap (·.gains))) := by
    induction vs with
    | nil => rfl
    | cons first vs ih =>
      rw [List.map_cons, List.sum_cons, ih, SubMix.idWidthIs, List.flatMap_cons, List.flatMap_cons, gainIdsAppend,
        idBytesAppend, idBytesAppend]
      omega
  rw [ids, idBytesCons, idBytesAppend, subMixes]
  rfl

theorem annotationsAnonymous (v : MixPresentation) : v.anonymous.annotationsOfElements = v.annotationsOfElements := by
  simp only [annotationsOfElements, anonymous, SubMix.anonymous, List.all_map, Function.comp_def]
  rfl

theorem resized {v u : MixPresentation} (same : v.anonymous = u.anonymous) :
    Resized (idBytes v.ids) (idBytes u.ids) (writeMixPresentation v) (writeMixPresentation u) := by
  have annotated : v.annotationsOfElements = u.annotationsOfElements := by
    rw [← annotationsAnonymous v, same, annotationsAnonymous]
  rw [idsBytes, idsBytes]
  unfold writeMixPresentation
  rw [annotated]
  obtain ⟨a, languages, annotations, subMixes, trailing⟩ := v
  obtain ⟨b, _, _, subMixes', _⟩ := u
  injection same with _ sameLanguages sameAnnotations sameSubMixes sameTrailing
  subst sameLanguages sameAnnotations sameTrailing
  have each := forallOfMap (fun a b alike => SubMix.resized (v := a) (u := b) alike) sameSubMixes
  have count : subMixes.length = subMixes'.length := by
    simpa only [List.length_map] using congrArg List.length sameSubMixes
  have counted : Resized (subMixes.map (·.idWidth)).sum (subMixes'.map (·.idWidth)).sum
      (writeCounted writeSubMix subMixes "num_sub_mixes") (writeCounted writeSubMix subMixes' "num_sub_mixes") := by
    unfold writeCounted
    rw [count]
    exact resizedBehind (definiteCount _ _) (resizedEach each)
  refine resizedBehind (definiteEnsure _ _) (resizedBehind (definiteEnsure _ _) ?_)
  refine resizedBind (resizedId a b) (resizedBehind (definiteCount _ _) ?_)
  refine resizedBehind (definiteEach definiteString languages) ?_
  refine resizedBehind (definiteEach definiteString annotations) ?_
  exact resizedBefore counted (definiteBytes trailing)

end MixPresentation

end Iamf.Wire
