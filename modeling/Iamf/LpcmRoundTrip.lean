import Iamf.EmitsWithin
import Iamf.LpcmFrames
import Iamf.ReceivedUnits

/-! From PCM to bytes and back: what a caller cuts into frames is accepted by the encoder, and a reader
of nothing but the bytes finds the samples of every Audio Element again. -/
namespace Iamf.Wire
open Bits BitString TapeCodec

def Encoder.lpcmFrames (encoder : Encoder) (pcm : AudioElement → Bytes) (index : Nat) (element : AudioElement) :
    Option (List (SubstreamHandle × FrameInput)) := do
  let spec ← specFor encoder.descriptors.codecConfigs element
  let payloads ← (spec.packed (pcm element) index).toOption
  some ((element.audioSubstreamIds.zip payloads).map fun entry => (⟨encoder.generation, entry.1.toNat⟩, .lpcm entry.2))

def Encoder.lpcmPlan (encoder : Encoder) (pcm : AudioElement → Bytes) (element : AudioElement) : Option FramePlan := do
  let spec ← specFor encoder.descriptors.codecConfigs element
  (planFrames (UInt64.ofNat ((pcm element).length / spec.sampleBytes)) spec.numSamplesPerFrame).toOption

def Encoder.lpcmUnits (encoder : Encoder) (pcm : AudioElement → Bytes) : Option (List TemporalUnitInput) := do
  let plans ← encoder.descriptors.audioElements.mapM (encoder.lpcmPlan pcm)
  let lead ← plans.head?
  guard (plans.all (· == lead))
  (List.range lead.frameCount.toNat).mapM fun index => do
    let frames ← encoder.descriptors.audioElements.mapM (encoder.lpcmFrames pcm index)
    some ⟨frames.flatten, [], lead.trimmingFor (UInt64.ofNat index)⟩

def frameOf (id : UInt32) : SequenceObu → Option (Option Trimming × Bytes)
  | .audioFrame obu =>
    if obu.payload.substreamId = id then some (trimmingOf obu.header, obu.payload.payload) else none
  | _ => none

def substreamFrames (obus : List SequenceObu) (id : UInt32) : List (Option Trimming × Bytes) :=
  obus.filterMap (frameOf id)

def elementIn : SequenceObu → Option AudioElement
  | .audioElement obu => some obu.payload
  | _ => none

def decodeElement (obus : List SequenceObu) (spec : ElementSpec) (ids : List UInt32) : Bytes :=
  let streams := ids.map (substreamFrames obus)
  (List.range (streams.head?.elim 0 List.length)).flatMap fun i =>
    let frames := streams.filterMap (·[i]?)
    spec.kept (frames.head?.bind (·.1)) (spec.unpacked (frames.map (·.2)))

/-- The samples of every Audio Element of a sequence, beside the id of the element. -/
def decodeLpcm (obus : List SequenceObu) : Option (List (UInt32 × Bytes)) :=
  (obus.filterMap elementIn).mapM fun element => do
    let spec ← specFor (obus.filterMap configIn) element
    some (element.audioElementId, decodeElement obus spec element.audioSubstreamIds)

theorem optionMapM {T U : Type} {f : T → Option U} {g : T → U} {items : List T}
    (each : ∀ item ∈ items, f item = some (g item)) : items.mapM f = some (items.map g) := by
  induction items with
  | nil => rfl
  | cons item items ih =>
    obtain ⟨head, tail⟩ := List.forall_mem_cons.mp each
    rw [List.mapM_cons, head, ih tail]
    rfl

theorem filterMapZip {T U V : Type} {f : T → Option V} {g : U → V} {xs : List T} {ys : List U}
    (length : xs.length = ys.length) (each : ∀ pair ∈ xs.zip ys, f pair.1 = some (g pair.2)) :
    xs.filterMap f = ys.map g := by
  induction xs generalizing ys with
  | nil =>
    rw [List.length_eq_zero_iff.mp length.symm]
    rfl
  | cons x xs ih =>
    cases ys with
    | nil => cases length
    | cons y ys =>
      rw [List.zip_cons_cons, List.forall_mem_cons] at each
      rw [List.filterMap_cons_some each.1, ih (Nat.succ.inj length) each.2, List.map_cons]

theorem filterOnce {T V : Type} {entries : List (T × V)} [DecidableEq T] (apart : (entries.map (·.1)).Nodup) {id : T} {v : V}
    (among : (id, v) ∈ entries) {W : Type} (g : V → W) :
    entries.filterMap (fun entry => if entry.1 = id then some (g entry.2) else none) = [g v] := by
  induction entries with
  | nil => cases among
  | cons entry entries ih =>
    rw [List.map_cons, List.nodup_cons] at apart
    rw [List.filterMap_cons]
    rcases List.mem_cons.mp among with rfl | inside
    · have none : entries.filterMap (fun entry => if entry.1 = id then some (g entry.2) else none) = [] := by
        refine List.filterMap_eq_nil_iff.mpr fun other here => if_neg fun same => apart.1 ?_
        exact List.mem_map.mpr ⟨other, here, same⟩
      simp only [if_pos, none]
    · have other : entry.1 ≠ id := fun same => apart.1 (same ▸ List.mem_map_of_mem inside)
      simp only [if_neg other]
      exact ih apart.2 inside

theorem specForOk {configs : List CodecConfig} {element : AudioElement} {spec : ElementSpec}
    (known : specFor configs element = some spec) : ∃ config lpcm layout plan, config ∈ configs ∧
      config.decoderConfig = .lpcm lpcm ∧ firstLayout element = some layout ∧ SubstreamPlan.forLayout layout = .ok plan ∧
      spec = ⟨config.numSamplesPerFrame, (lpcm.sampleSize.toNat + 7) / 8, plan⟩ := by
  unfold specFor at known
  obtain ⟨config, found, known⟩ := Option.bind_eq_some_iff.mp known
  obtain ⟨lpcm, codec, known⟩ := Option.bind_eq_some_iff.mp known
  obtain ⟨layout, first, known⟩ := Option.bind_eq_some_iff.mp known
  obtain ⟨plan, planned, known⟩ := Option.bind_eq_some_iff.mp known
  refine ⟨config, lpcm, layout, plan, List.mem_of_find?_eq_some found, ?_, first, ?_, (Option.some.inj known).symm⟩
  · unfold CodecConfig.lpcmConfig at codec
    split at codec
    · cases codec
      assumption
    · cases codec
  · cases made : SubstreamPlan.forLayout layout with
    | ok plan' =>
      rw [made] at planned
      exact congrArg Except.ok (Option.some.inj planned)
    | error e =>
      rw [made] at planned
      cases planned

theorem lpcmClean {config : CodecConfig} {lpcm : LpcmDecoderConfig} (clean : config.validate = [])
    (codec : config.decoderConfig = .lpcm lpcm) : 0 < config.numSamplesPerFrame.toNat ∧
      config.numSamplesPerFrame.toNat ≤ maxSamplesPerFrame ∧ lpcm.sampleSize.toNat / 8 = (lpcm.sampleSize.toNat + 7) / 8 ∧
      1 ≤ lpcm.sampleSize.toNat / 8 ∧ lpcm.sampleSize.toNat / 8 ≤ 4 := by
  unfold CodecConfig.validate at clean
  rw [codec] at clean
  simp only [List.append_eq_nil_iff, CodecConfig.findingUnless, CodecConfig.validateLpcm, findingIfNil, Bool.not_eq_false',
    Bool.and_eq_true, bne_iff_ne, decide_eq_true_eq, List.contains_iff_mem] at clean
  obtain ⟨⟨⟨_, some', most⟩, ⟨_, sizes⟩, _⟩, _⟩ := clean
  have positive : config.numSamplesPerFrame.toNat ≠ 0 := fun zero => some' (UInt32.toNat_inj.mp zero)
  simp only [List.mem_cons, List.not_mem_nil, or_false] at sizes
  exact ⟨Nat.pos_of_ne_zero positive, most, by omega⟩

theorem layoutChannels {layout : LoudspeakerLayout} {plan : SubstreamPlan}
    (supported : SubstreamPlan.forLayout layout = .ok plan) : plan.channelCount ≤ 6 := by
  cases layout with
  | mono => cases supported; decide
  | stereo => cases supported; decide
  | binaural => cases supported; decide
  | ch5_1 => cases supported; decide
  | _ => cases supported

theorem onlyFirst {element : AudioElement} {layout : LoudspeakerLayout} (topology : validateElementTopology element = .ok ())
    (first : firstLayout element = some layout) : ∃ layer, element.OnlyLayer layer ∧ layer.loudspeakerLayout = layout := by
  unfold firstLayout at first
  split at first
  · rename_i config kind
    unfold validateElementTopology at topology
    rw [kind] at topology
    obtain ⟨_, _, single⟩ := exceptBindOk topology
    split at single
    · rename_i layer layers
      rw [layers] at first
      exact ⟨layer, ⟨config, kind, layers⟩, Option.some.inj first⟩
    · cases single
  · cases first

theorem onlyLayerCount {element : AudioElement} {layer : ChannelAudioLayerConfig} (only : element.OnlyLayer layer)
    (clean : element.validate = []) : layer.substreamCount.toNat = element.audioSubstreamIds.length := by
  obtain ⟨config, kind, layers⟩ := only
  unfold AudioElement.validate at clean
  rw [kind] at clean
  simp only [List.append_eq_nil_iff, AudioElement.validateChannelBased, findingIfNil, layers, List.map_cons, List.map_nil,
    List.sum_cons, List.sum_nil, Nat.add_zero, bne_eq_false_iff_eq] at clean
  exact clean.1.1.2.1.2

structure ElementReady (encoder : Encoder) (config : CodecConfig) (element : AudioElement) (spec : ElementSpec) : Prop where
  sound : spec.Sound
  size : spec.numSamplesPerFrame = config.numSamplesPerFrame
  count : element.audioSubstreamIds.length = spec.plan.substreams.length
  demanded : ∀ stored i k payload, (spec.payloads stored i)[k]? = some payload →
    validateFrame config (substreamChannels element k) (.lpcm payload) = .ok () ∧ 15 + payload.length ≤ payloadMax

theorem elementReady {b : EncoderBuilder} {encoder : Encoder} {manifest : IdManifest} (built : Built b encoder manifest)
    {config : CodecConfig} (configs : encoder.descriptors.codecConfigs = [config]) {element : AudioElement}
    (among : element ∈ encoder.descriptors.audioElements) {spec : ElementSpec}
    (known : specFor encoder.descriptors.codecConfigs element = some spec) : ElementReady encoder config element spec := by
  obtain ⟨config', lpcm, layout, plan, declared, codec, first, supported, rfl⟩ := specForOk known
  rw [configs] at declared
  cases List.mem_singleton.mp declared
  have checked := built.elementFrom among
  have clean : config.validate = [] := (built.configFrom (by rw [configs]; exact List.mem_singleton_self _)).2
  obtain ⟨positive, most, ceiling, width, narrow⟩ := lpcmClean clean codec
  obtain ⟨planSound, counts⟩ := SubstreamPlan.forLayoutSound supported
  have channels := layoutChannels supported
  obtain ⟨layer, only, rfl⟩ := onlyFirst checked.topology first
  obtain ⟨_, substreams, coupled⟩ := (onlyLayerRequired only counts).mp checked.topology
  rw [← ceiling]
  have wide (k : Nat) : plan.width k = (substreamChannels element k).toNat := by
    rw [onlyLayerChannels only, SubstreamPlan.width, coupled]
  have most' : config.numSamplesPerFrame.toNat ≤ 96000 := most
  have sound : ElementSpec.Sound ⟨config.numSamplesPerFrame, lpcm.sampleSize.toNat / 8, plan⟩ :=
    ⟨planSound, positive, width, le_trans (Nat.mul_le_mul most' (Nat.mul_le_mul channels narrow)) (by decide)⟩
  refine ⟨sound, rfl, ?_, fun stored i k payload here => ?_⟩
  · rw [← onlyLayerCount only checked.findings, substreams, planSound.counted]
  · have length : payload.length = config.numSamplesPerFrame.toNat * plan.width k * (lpcm.sampleSize.toNat / 8) :=
      (payloadsLossless planSound (ElementSpec.chunkCells stored i)).sized k payload here
    have cells : plan.width k ≤ 2 := by
      unfold SubstreamPlan.width
      split_ifs <;> omega
    have small := Nat.mul_le_mul (Nat.mul_le_mul most' cells) narrow
    refine ⟨(lpcmDemanded codec width _ payload).mpr (by rw [length, wide]), ?_⟩
    rw [length]
    exact le_trans (Nat.add_le_add_left small 15) (by decide)

theorem eraseDupsOnce {ids : List UInt32} (apart : ids.Nodup) : ids.eraseDups = ids := by
  induction ids with
  | nil => rfl
  | cons id ids ih =>
    rw [List.nodup_cons] at apart
    have others : ids.filter (fun other => !other == id) = ids :=
      List.filter_eq_self.mpr fun other among => by
        have apart' : other ≠ id := fun same => apart.1 (same ▸ among)
        simpa using apart'
    rw [List.eraseDups_cons, others, ih apart.2]

theorem framesWritten (registry : ParamDefinitionRegistry) {frames : List (Obu AudioFrame)}
    (each : ∀ frame ∈ frames, Writable (writeObuWithHeader frame writeAudioFrame)) :
    ∃ bytes, finishWriter (writeSequenceObus registry (frames.map .audioFrame)) = .ok bytes ∧
      bytes.length ≤ frames.length * entireObuSizeMax := by
  induction frames with
  | nil => exact ⟨[], rfl, Nat.zero_le _⟩
  | cons frame frames ih =>
    obtain ⟨⟨head, first⟩, others⟩ := List.forall_mem_cons.mp each
    obtain ⟨tail, rest, short⟩ := ih others
    have first' : finishWriter (writeObuWith frame (writeAudioFrame frame.header)) = .ok head := first
    have one := obuLength first'
    refine ⟨head ++ tail, (finishWriterBind (octetsWriteSequenceObu _ _) (octetsWriteSequenceObus _ _)).mpr
      ⟨head, tail, first, rest, rfl⟩, ?_⟩
    rw [List.length_append, List.length_cons, Nat.succ_mul]
    omega

section

variable (encoder : Encoder) (spec : AudioElement → ElementSpec) (pcm : AudioElement → Bytes) (frames : FramePlan)

def lpcmEntries (i : Nat) : List (UInt32 × Bytes) :=
  encoder.descriptors.audioElements.flatMap fun element =>
    element.audioSubstreamIds.zip ((spec element).payloads (pcm element) i)

def lpcmInput (i : Nat) : TemporalUnitInput :=
  ⟨(lpcmEntries encoder spec pcm i).map fun entry => (⟨encoder.generation, entry.1.toNat⟩, .lpcm entry.2), [],
    frames.trimmingFor (UInt64.ofNat i)⟩

def lpcmInputs : List TemporalUnitInput := (List.range frames.frameCount.toNat).map (lpcmInput encoder spec pcm frames)

def lpcmSequence : ParsedSequence :=
  .fromParts encoder.descriptors ((lpcmInputs encoder spec pcm frames).map encoder.lowered)

end

section

variable {encoder : Encoder} {config : CodecConfig} {spec : AudioElement → ElementSpec} (pcm : AudioElement → Bytes)
  (frames : FramePlan)
  (ready : ∀ element ∈ encoder.descriptors.audioElements, ElementReady encoder config element (spec element))
include ready

theorem payloadsCount {element : AudioElement} (among : element ∈ encoder.descriptors.audioElements) (i : Nat) :
    element.audioSubstreamIds.length = ((spec element).payloads (pcm element) i).length := by
  rw [(ready element among).count, ElementSpec.payloads, List.length_map]

theorem entriesIds (i : Nat) : (lpcmEntries encoder spec pcm i).map (·.1) =
    encoder.descriptors.audioElements.flatMap (·.audioSubstreamIds) := by
  unfold lpcmEntries
  rw [List.map_flatMap]
  exact List.flatMap_congr fun element among => List.map_fst_zip (payloadsCount pcm ready among i).le

theorem inputZip (apart : (encoder.descriptors.audioElements.flatMap (·.audioSubstreamIds)).Nodup) (i : Nat) :
    (lpcmInput encoder spec pcm frames i).frames.zip encoder.declaredSubstreams =
      (lpcmEntries encoder spec pcm i).map fun entry =>
        ((⟨encoder.generation, entry.1.toNat⟩, .lpcm entry.2), entry.1) := by
  rw [encoder.declaredSubstreamsAre, eraseDupsOnce apart, ← entriesIds pcm ready i]
  exact List.zip_map' ..

theorem entryReady {i : Nat} {entry : UInt32 × Bytes} (among : entry ∈ lpcmEntries encoder spec pcm i) :
    ∃ element ∈ encoder.descriptors.audioElements, ∃ k, element.audioSubstreamIds[k]? = some entry.1 ∧
      validateFrame config (substreamChannels element k) (.lpcm entry.2) = .ok () ∧
      15 + entry.2.length ≤ payloadMax := by
  obtain ⟨element, inside, paired⟩ := List.mem_flatMap.mp among
  obtain ⟨k, here⟩ := List.mem_iff_getElem?.mp paired
  obtain ⟨id, payload⟩ := List.getElem?_zip_eq_some.mp here
  exact ⟨element, inside, k, id, (ready element inside).demanded (pcm element) i k entry.2 payload⟩

theorem inputSound {b : EncoderBuilder} {manifest : IdManifest} (built : Built b encoder manifest)
    (configs : encoder.descriptors.codecConfigs = [config])
    (apart : (encoder.descriptors.audioElements.flatMap (·.audioSubstreamIds)).Nodup) (i : Nat) :
    encoder.Sound (lpcmInput encoder spec pcm frames i) := by
  have ids := entriesIds pcm ready i
  refine ⟨?_, ?_, fun entry among => ?_, nofun, List.nodup_nil⟩
  · have handles : (lpcmInput encoder spec pcm frames i).frames.map (·.1) =
        (encoder.descriptors.audioElements.flatMap (·.audioSubstreamIds)).map
          fun id => ⟨encoder.generation, id.toNat⟩ := by
      rw [← ids, List.map_map]
      exact List.map_map
    rw [handles]
    refine apart.map fun id other same => UInt32.toNat_inj.mp ?_
    exact congrArg Handle.index same
  · rw [encoder.declaredSubstreamsAre, eraseDupsOnce apart, ← ids]
    simp only [lpcmInput, List.length_map]
  · rw [inputZip pcm frames ready apart] at among
    obtain ⟨entry, inside, rfl⟩ := List.mem_map.mp among
    obtain ⟨element, among', k, at', demanded, _⟩ := entryReady pcm ready inside
    have declared : entry.1 ∈ encoder.declaredSubstreams := by
      rw [encoder.declaredSubstreamsAre, List.mem_eraseDups]
      exact List.mem_flatMap.mpr ⟨element, among', List.mem_of_getElem? at'⟩
    exact ⟨config, _, rfl, declared, built.substreamPlan configs among' at', demanded⟩

theorem inputLowered (apart : (encoder.descriptors.audioElements.flatMap (·.audioSubstreamIds)).Nodup) (i : Nat) :
    encoder.lowered (lpcmInput encoder spec pcm frames i) = ⟨none, [], (lpcmEntries encoder spec pcm i).map fun entry =>
      AudioFrame.intoObu ⟨entry.1, entry.2⟩ (frames.trimmingFor (UInt64.ofNat i))⟩ := by
  unfold Encoder.lowered
  rw [inputZip pcm frames ready apart, List.map_map]
  rfl

theorem inputEncodes {b : EncoderBuilder} {manifest : IdManifest} (built : Built b encoder manifest)
    (configs : encoder.descriptors.codecConfigs = [config])
    (apart : (encoder.descriptors.audioElements.flatMap (·.audioSubstreamIds)).Nodup)
    (definitions : ParamDefinitionRegistry) (i : Nat) : ∃ bytes,
      (Call.temporalUnit (encoder.lowered (lpcmInput encoder spec pcm frames i))).Encodes definitions bytes ∧
        bytes.length ≤ encoder.declaredSubstreams.length * entireObuSizeMax := by
  have valid := Encoder.loweredValid (inputSound pcm frames ready built configs apart i)
  rw [inputLowered pcm frames ready apart] at valid ⊢
  have writable : ∀ frame ∈ (lpcmEntries encoder spec pcm i).map fun entry => AudioFrame.intoObu ⟨entry.1, entry.2⟩
      (frames.trimmingFor (UInt64.ofNat i)), Writable (writeObuWithHeader frame writeAudioFrame) := by
    intro frame among
    obtain ⟨entry, inside, rfl⟩ := List.mem_map.mp among
    obtain ⟨_, _, _, _, _, small⟩ := entryReady pcm ready inside
    exact frameWritable _ _ small
  obtain ⟨bytes, written, short⟩ := framesWritten definitions writable
  have count := congrArg List.length (entriesIds pcm ready i)
  rw [List.length_map] at short count
  rw [encoder.declaredSubstreamsAre, eraseDupsOnce apart, ← count]
  exact ⟨bytes, ⟨valid, written⟩, short⟩

theorem inputsEncode {b : EncoderBuilder} {manifest : IdManifest} (built : Built b encoder manifest)
    (configs : encoder.descriptors.codecConfigs = [config])
    (apart : (encoder.descriptors.audioElements.flatMap (·.audioSubstreamIds)).Nodup)
    (definitions : ParamDefinitionRegistry) (indices : List Nat) : ∃ bytes,
      Encoder.UnitBytes definitions ((indices.map (lpcmInput encoder spec pcm frames)).map encoder.lowered) bytes ∧
        bytes.length ≤ indices.length * (encoder.declaredSubstreams.length * entireObuSizeMax) := by
  induction indices with
  | nil => exact ⟨[], .nil, Nat.zero_le _⟩
  | cons i indices ih =>
    obtain ⟨head, first, short⟩ := inputEncodes pcm frames ready built configs apart definitions i
    obtain ⟨tail, rest, small⟩ := ih
    refine ⟨head ++ tail, .cons first rest, ?_⟩
    rw [List.length_append, List.length_cons, Nat.succ_mul]
    omega

omit ready in
theorem noFrames (set : DescriptorSet) (id : UInt32) : set.obus.filterMap (frameOf id) = [] := by
  refine List.filterMap_eq_nil_iff.mpr fun obu among => ?_
  simp only [DescriptorSet.obus, List.mem_cons, List.mem_append, List.mem_map] at among
  rcases among with rfl | ⟨_, _, rfl⟩ | ⟨_, _, rfl⟩ | ⟨_, _, rfl⟩ <;> rfl

variable (apart : (encoder.descriptors.audioElements.flatMap (·.audioSubstreamIds)).Nodup)
include apart

theorem substreamFramesSent {id : UInt32} {payload : Nat → Bytes}
    (sent : ∀ i, (id, payload i) ∈ lpcmEntries encoder spec pcm i) :
    substreamFrames (lpcmSequence encoder spec pcm frames).obus id =
      (List.range frames.frameCount.toNat).map fun i => (frames.trimmingFor (UInt64.ofNat i), payload i) := by
  unfold substreamFrames lpcmSequence ParsedSequence.fromParts lpcmInputs
  rw [List.filterMap_append, noFrames, List.nil_append, List.map_map, List.flatMap_map, List.filterMap_flatMap,
    List.map_eq_flatMap]
  refine List.flatMap_congr fun i _ => ?_
  change (encoder.lowered (lpcmInput encoder spec pcm frames i)).obus.filterMap (frameOf id) = _
  rw [inputLowered pcm frames ready apart]
  change (((lpcmEntries encoder spec pcm i).map _).map SequenceObu.audioFrame).filterMap (frameOf id) = _
  rw [List.map_map, List.filterMap_map]
  rw [← entriesIds pcm ready i] at apart
  exact filterOnce apart (sent i) fun payload => (frames.trimmingFor (UInt64.ofNat i), payload)

variable {element : AudioElement} (among : element ∈ encoder.descriptors.audioElements)
include among

theorem elementStream {k : Nat} {id : UInt32} (at' : element.audioSubstreamIds[k]? = some id) :
    substreamFrames (lpcmSequence encoder spec pcm frames).obus id = (List.range frames.frameCount.toNat).map fun i =>
      (frames.trimmingFor (UInt64.ofNat i), ((spec element).payloads (pcm element) i).getD k []) := by
  refine substreamFramesSent pcm frames ready apart fun i =>
    List.mem_flatMap.mpr ⟨element, among, List.mem_iff_getElem?.mpr ⟨k, ?_⟩⟩
  have inside := (List.getElem?_eq_some_iff.mp at').1
  rw [payloadsCount pcm ready among i] at inside
  exact List.getElem?_zip_eq_some.mpr ⟨at', by rw [List.getD_eq_getElem?_getD, List.getElem?_eq_getElem inside]; rfl⟩

theorem elementFrame {i : Nat} (early : i < frames.frameCount.toNat) :
    (element.audioSubstreamIds.map (substreamFrames (lpcmSequence encoder spec pcm frames).obus)).filterMap (·[i]?) =
      ((spec element).payloads (pcm element) i).map fun payload => (frames.trimmingFor (UInt64.ofNat i), payload) := by
  rw [List.filterMap_map]
  refine filterMapZip (payloadsCount pcm ready among i) fun pair paired => ?_
  obtain ⟨k, here⟩ := List.mem_iff_getElem?.mp paired
  obtain ⟨at', payload⟩ := List.getElem?_zip_eq_some.mp here
  simp only [Function.comp_apply, elementStream pcm frames ready apart among at', List.getElem?_map, List.getElem?_range early,
    Option.map_some, List.getD_eq_getElem?_getD, payload, Option.getD_some]

omit apart in
theorem elementUsed : ∃ first others, (spec element).plan.substreams = first :: others ∧
    ∃ id, element.audioSubstreamIds[0]? = some id := by
  have checked := ready element among
  cases substreams : (spec element).plan.substreams with
  | nil =>
    refine absurd ?_ checked.sound.plan.carries
    unfold SubstreamPlan.channelCount
    rw [substreams]
    rfl
  | cons first others =>
    have count := checked.count
    rw [substreams, List.length_cons] at count
    exact ⟨first, others, rfl, _, List.getElem?_eq_getElem (by omega)⟩

theorem elementDecoded {total : UInt64} (planned : Planned total config.numSamplesPerFrame frames)
    (length : (pcm element).length = total.toNat * (spec element).sampleBytes) :
    decodeElement (lpcmSequence encoder spec pcm frames).obus (spec element) element.audioSubstreamIds = pcm element := by
  have checked := ready element among
  obtain ⟨first, others, substreams, lead, at'⟩ := elementUsed ready among
  have units : (element.audioSubstreamIds.map (substreamFrames (lpcmSequence encoder spec pcm frames).obus)).head?.elim 0
      List.length = frames.frameCount.toNat := by
    rw [List.head?_eq_getElem?, List.getElem?_map, at', Option.map_some, Option.elim_some,
      elementStream pcm frames ready apart among at', List.length_map, List.length_range]
  have joined := ElementSpec.keptJoin checked.sound (checked.size ▸ planned) length
  unfold decodeElement
  dsimp only
  rw [units]
  refine Eq.trans (List.flatMap_congr fun i inside => ?_) joined
  have leads : (((spec element).payloads (pcm element) i).map fun payload =>
      (frames.trimmingFor (UInt64.ofNat i), payload)).head?.bind (·.1) = frames.trimmingFor (UInt64.ofNat i) := by
    unfold ElementSpec.payloads
    rw [substreams]
    rfl
  simp only [elementFrame pcm frames ready apart among (List.mem_range.mp inside), leads, List.map_map]
  change (spec element).kept _ ((spec element).unpacked (((spec element).payloads (pcm element) i).map id)) = _
  rw [List.map_id, ElementSpec.unpackedPayloads checked.sound]

end

section

variable {encoder : Encoder} {config : CodecConfig} {spec : AudioElement → ElementSpec} {pcm : AudioElement → Bytes}
  {frames : FramePlan}
  (known : ∀ element ∈ encoder.descriptors.audioElements,
    specFor encoder.descriptors.codecConfigs element = some (spec element))
include known

theorem lpcmUnitsOf (ready : ∀ element ∈ encoder.descriptors.audioElements, ElementReady encoder config element (spec element))
    (some' : encoder.descriptors.audioElements ≠ []) {total : UInt64}
    (planned : planFrames total config.numSamplesPerFrame = .ok frames)
    (sized : ∀ element ∈ encoder.descriptors.audioElements,
      (pcm element).length = total.toNat * (spec element).sampleBytes) :
    encoder.lpcmUnits pcm = some (lpcmInputs encoder spec pcm frames) := by
  have plan : ∀ element ∈ encoder.descriptors.audioElements, encoder.lpcmPlan pcm element = some frames := by
    intro element among
    have checked := ready element among
    have positive : 0 < (spec element).sampleBytes :=
      Nat.mul_pos (Nat.pos_of_ne_zero checked.sound.plan.carries) checked.sound.width
    unfold Encoder.lpcmPlan
    rw [known element among]
    change (planFrames (UInt64.ofNat ((pcm element).length / (spec element).sampleBytes))
      (spec element).numSamplesPerFrame).toOption = _
    rw [sized element among, Nat.mul_div_cancel _ positive, UInt64.ofNat_toNat, checked.size, planned]
    rfl
  have packed (i : Nat) : ∀ element ∈ encoder.descriptors.audioElements, encoder.lpcmFrames pcm i element =
      some ((element.audioSubstreamIds.zip ((spec element).payloads (pcm element) i)).map fun entry =>
        (⟨encoder.generation, entry.1.toNat⟩, .lpcm entry.2)) := by
    intro element among
    unfold Encoder.lpcmFrames
    rw [known element among]
    change (((spec element).packed (pcm element) i).toOption.bind _) = _
    rw [ElementSpec.packedOf (ready element among).sound]
    rfl
  obtain ⟨element, others, split⟩ := List.exists_cons_of_ne_nil some'
  have leads : (encoder.descriptors.audioElements.map fun _ => frames).head? = some frames := by
    rw [split]
    rfl
  have alike : (encoder.descriptors.audioElements.map fun _ => frames).all (· == frames) = true := by
    simp
  have input : ∀ i ∈ List.range frames.frameCount.toNat,
      ((encoder.descriptors.audioElements.mapM (encoder.lpcmFrames pcm i)).bind fun perElement =>
        some ⟨perElement.flatten, [], frames.trimmingFor (UInt64.ofNat i)⟩) = some (lpcmInput encoder spec pcm frames i) := by
    intro i _
    rw [optionMapM (packed i), Option.bind_some, ← List.flatMap_def]
    unfold lpcmInput lpcmEntries
    rw [List.map_flatMap]
  unfold Encoder.lpcmUnits
  rw [optionMapM plan]
  simp only [Option.bind_eq_bind, Option.bind_some, leads, alike, guard, if_true, Option.pure_def]
  exact optionMapM input

end

open SequenceObu in
theorem elementsRead (set : DescriptorSet) (units : List TemporalUnit) :
    (ParsedSequence.fromParts set units).obus.filterMap elementIn =
      set.sortedElements.map fun element => { element with trailing := [] } := by
  have silent : ∀ unit : TemporalUnit, ∀ obu ∈ unit.obus, elementIn obu = none := by
    intro unit obu among
    simp only [TemporalUnit.obus, List.mem_append, List.mem_map] at among
    rcases among with ⟨_, _, rfl⟩ | ⟨_, _, rfl⟩ | ⟨_, _, rfl⟩ <;> rfl
  rw [partsOf silent, DescriptorSet.obus, List.filterMap_cons_none rfl, List.filterMap_append, List.filterMap_append,
    mappedNone ofCodecConfig fun _ => rfl, mappedNone ofMixPresentation fun _ => rfl, List.nil_append,
    List.append_nil]
  exact mappedSome ofAudioElement (f := elementIn) (fun _ => rfl) _

theorem specForRead (config : CodecConfig) (element : AudioElement) :
    specFor [{ config with trailing := [] }] { element with trailing := [] } = specFor [config] element := by
  unfold specFor
  rw [List.find?_singleton, List.find?_singleton]
  split_ifs <;> rfl

theorem sequenceDecoded {encoder : Encoder} {config : CodecConfig} {spec : AudioElement → ElementSpec}
    {pcm : AudioElement → Bytes} {frames : FramePlan} (configs : encoder.descriptors.codecConfigs = [config])
    (known : ∀ element ∈ encoder.descriptors.audioElements,
      specFor encoder.descriptors.codecConfigs element = some (spec element))
    (ready : ∀ element ∈ encoder.descriptors.audioElements, ElementReady encoder config element (spec element))
    (apart : (encoder.descriptors.audioElements.flatMap (·.audioSubstreamIds)).Nodup) {total : UInt64}
    (planned : Planned total config.numSamplesPerFrame frames)
    (sized : ∀ element ∈ encoder.descriptors.audioElements,
      (pcm element).length = total.toNat * (spec element).sampleBytes) :
    decodeLpcm (lpcmSequence encoder spec pcm frames).obus =
      some (encoder.descriptors.sortedElements.map fun element => (element.audioElementId, pcm element)) := by
  have sortedConfigs : encoder.descriptors.sortedConfigs = [config] := by
    unfold DescriptorSet.sortedConfigs sortedById
    rw [configs, List.mergeSort_singleton]
  have decoded : ∀ element ∈ encoder.descriptors.sortedElements, ((specFor [{ config with trailing := [] }]
      { element with trailing := [] }).bind fun spec' => some (element.audioElementId,
        decodeElement (lpcmSequence encoder spec pcm frames).obus spec' element.audioSubstreamIds)) =
      some (element.audioElementId, pcm element) := by
    intro element sorted
    have among := (sortedPerm _ _).mem_iff.mp sorted
    have spec' := known element among
    rw [configs] at spec'
    rw [specForRead, spec', Option.bind_some, elementDecoded pcm frames ready apart among planned (sized element among)]
  unfold decodeLpcm
  have elements : (lpcmSequence encoder spec pcm frames).obus.filterMap elementIn =
    encoder.descriptors.sortedElements.map fun element => { element with trailing := [] } := elementsRead _ _
  have configs' : (lpcmSequence encoder spec pcm frames).obus.filterMap configIn =
    encoder.descriptors.sortedConfigs.map fun config => { config with trailing := [] } := configsRead _ _
  rw [elements, configs', sortedConfigs, List.map_singleton, List.mapM_map]
  exact optionMapM decoded

theorem lpcmPasses {b : EncoderBuilder} {encoder : Encoder} {manifest : IdManifest} (built : Built b encoder manifest)
    {config : CodecConfig} (configs : encoder.descriptors.codecConfigs = [config]) {spec : AudioElement → ElementSpec}
    (ready : ∀ element ∈ encoder.descriptors.audioElements, ElementReady encoder config element (spec element))
    (apart : (encoder.descriptors.audioElements.flatMap (·.audioSubstreamIds)).Nodup) (pcm : AudioElement → Bytes)
    (frames : FramePlan) {prologue : Bytes} (descriptors : finishWriter (writeDescriptors encoder.descriptors) = .ok prologue)
    (room : (frames.frameCount.toNat * encoder.declaredSubstreams.length + encoder.descriptors.count) *
      entireObuSizeMax ≤ u64Max) : encoder.PassesOtherwise (lpcmInputs encoder spec pcm frames) := by
  obtain ⟨bytes, encodes, short⟩ := inputsEncode pcm frames ready built configs apart
    (.fromDescriptors encoder.descriptors) (List.range frames.frameCount.toNat)
  have small := encoder.descriptors.writtenLength descriptors
  have blocks : ∀ input ∈ lpcmInputs encoder spec pcm frames, Encoder.blockIds input.parameterBlocks = [] := by
    intro input given
    obtain ⟨i, _, rfl⟩ := List.mem_map.mp given
    rfl
  refine ⟨fun input given => ?_, fun input given other given' id => ?_, prologue, bytes, descriptors, encodes, ?_⟩
  · obtain ⟨i, _, rfl⟩ := List.mem_map.mp given
    exact inputSound pcm frames ready built configs apart i
  · rw [blocks input given, blocks other given']
  · rw [List.length_range, ← Nat.mul_assoc] at short
    rw [Nat.add_mul] at room
    omega

theorem lpcmRoundTrip {b : EncoderBuilder} {encoder : Encoder} {manifest : IdManifest}
    (ok : b.build = .ok (encoder, manifest)) {W : Sink} (all : W.AcceptsAll) {start : W.State} {w : EncodingWriter W}
    {s : SequenceWriter W} (started : encoder.start start = .ok w s) {spec : AudioElement → ElementSpec}
    (known : ∀ element ∈ encoder.descriptors.audioElements,
      specFor encoder.descriptors.codecConfigs element = some (spec element))
    (apart : (encoder.descriptors.audioElements.flatMap (·.audioSubstreamIds)).Nodup) {pcm : AudioElement → Bytes}
    {total : UInt64} (sized : ∀ element ∈ encoder.descriptors.audioElements,
      (pcm element).length = total.toNat * (spec element).sampleBytes)
    {n : UInt32} (size : encoder.frameSize = some n)
    (room : (framesFor total.toNat n.toNat * encoder.declaredSubstreams.length + encoder.descriptors.count) *
      entireObuSizeMax ≤ u64Max) : ∃ inputs bytes parsed, encoder.lpcmUnits pcm = some inputs ∧
      (∀ reply ∈ w.answers inputs, reply = .ok ()) ∧
      (EncodingWriter.outcome EncodingWriter.finish (w.after inputs)).1 = .ok () ∧
      W.held (EncodingWriter.outcome EncodingWriter.finish (w.after inputs)).2.sequence.sink = W.held start ++ bytes ∧
      parseSequence bytes = .ok parsed ∧ decodeLpcm parsed.obus =
        some (encoder.descriptors.sortedElements.map fun element => (element.audioElementId, pcm element)) := by
  have built := buildOk.mp ok
  obtain ⟨_, config, _, _, configs, _⟩ := built.oneConfig
  obtain rfl : config.numSamplesPerFrame = n := Option.some.inj ((Encoder.frameSizeOf configs).symm.trans size)
  have ready := fun element among => elementReady built configs among (known element among)
  have some' : encoder.descriptors.audioElements ≠ [] := fun none =>
    built.hasSubstream (by rw [encoder.declaredSubstreamsAre, none]; rfl)
  obtain ⟨element, among⟩ := List.exists_mem_of_ne_nil _ some'
  obtain ⟨config', lpcm, _, _, declared, codec, _⟩ := specForOk (known element among)
  rw [configs] at declared
  cases List.mem_singleton.mp declared
  have clean : config.validate = [] := (built.configFrom (by rw [configs]; exact List.mem_singleton_self _)).2
  obtain ⟨positive, most, _⟩ := lpcmClean clean codec
  have substream := List.length_pos_iff.mpr built.hasSubstream
  have cells : framesFor total.toNat config.numSamplesPerFrame.toNat * config.numSamplesPerFrame.toNat ≤ u64Max := by
    refine le_trans (le_trans (Nat.mul_le_mul (Nat.le_mul_of_pos_right _ substream)
      (le_trans most (by decide : maxSamplesPerFrame ≤ entireObuSizeMax))) ?_) room
    exact Nat.mul_le_mul_right _ (Nat.le_add_right _ _)
  obtain ⟨frames, cut⟩ : ∃ frames, planFrames total config.numSamplesPerFrame = .ok frames := by
    cases plan : planFrames total config.numSamplesPerFrame with
    | ok frames => exact ⟨frames, rfl⟩
    | error e => exact absurd cells (Nat.not_le_of_gt ((planFails positive).mp ⟨e, plan⟩))
  have plan := planned positive cut
  have first := EncodingWriter.startSent started
  obtain ⟨_, prologue, _, sends, _⟩ := first.sends
  have passes := lpcmPasses built configs ready apart pcm frames sends.descriptors (plan.count ▸ room)
  have skip : encoder.opusPreSkip = none := by
    unfold Encoder.opusPreSkip CodecConfig.opusConfig
    rw [configs, List.head?_cons, Option.bind_some, codec]
    rfl
  have trimmings : (lpcmInputs encoder spec pcm frames).map (·.trimming) = frames.trimmings := List.map_map
  obtain ⟨pushed, finished⟩ := Encoder.acceptsUntrimmed ok positive size skip (plan.untrimmed positive) W start w s _ all
    started passes trimmings
  obtain ⟨_, bytes, held, _, parsed⟩ := built.sent all started pushed
  have last := EncodingWriter.answersSent all first pushed
  exact ⟨_, bytes, _, lpcmUnitsOf known ready some' cut sized, pushed, finished,
    (EncodingWriter.finishSent all last).2.trans held, parsed, sequenceDecoded configs known ready apart plan sized⟩

def surroundElement : AudioElement := .channelBased 0 0 [0, 1, 2, 3] (.singleLayer (.new .ch5_1 4 2))

def declareSurround : EncoderBuilder.Declare MixPresentationHandle := do
  let codec ← EncoderBuilder.addCodecConfig (.lpcm 0 2 ⟨.littleEndian, 16, 48000⟩)
  let element ← EncoderBuilder.addAudioElement codec surroundElement
  EncoderBuilder.addMixPresentation [element] (stereoPresentation 0)

def surroundBuilder : EncoderBuilder := (declareSurround (.new 7)).2

def surroundEncoder : Encoder :=
  ⟨⟨.new 0 0, [.lpcm 0 2 ⟨.littleEndian, 16, 48000⟩], [surroundElement], [stereoPresentation 0]⟩, 7⟩

theorem surroundBuilds : ∃ manifest, surroundBuilder.build = .ok (surroundEncoder, manifest) := buildsTo (by decide +kernel)

def surroundPcm (_ : AudioElement) : Bytes := (List.range 36).map UInt8.ofNat

theorem lpcmRoundTripSurround : ∃ w s inputs bytes parsed,
    surroundEncoder.start (W := Sink.buffer) [] = .ok w s ∧
    surroundEncoder.lpcmUnits surroundPcm = some inputs ∧ inputs.map (·.trimming) = [none, some ⟨1, 0⟩] ∧
    (∀ reply ∈ w.answers inputs, reply = .ok ()) ∧ parseSequence bytes = .ok parsed ∧
    decodeLpcm parsed.obus = some [(0, surroundPcm surroundElement)] := by
  obtain ⟨manifest, built⟩ := surroundBuilds
  obtain ⟨w, s, started, _⟩ := @Encoder.startedOf Sink.buffer surroundEncoder [] (fun _ => true) (by decide +kernel)
  have known : ∀ element ∈ surroundEncoder.descriptors.audioElements,
      specFor surroundEncoder.descriptors.codecConfigs element = some ⟨2, 2, surroundPlan⟩ := by
    intro element among
    rw [List.mem_singleton.mp among]
    rfl
  have sized : ∀ element ∈ surroundEncoder.descriptors.audioElements, (surroundPcm element).length =
      (3 : UInt64).toNat * (⟨2, 2, surroundPlan⟩ : ElementSpec).sampleBytes := fun _ _ => rfl
  have trimmed : (surroundEncoder.lpcmUnits surroundPcm).map (·.map (·.trimming)) = some [none, some ⟨1, 0⟩] := by
    decide +kernel
  obtain ⟨inputs, bytes, parsed, units, pushed, _, _, read, decoded⟩ := lpcmRoundTrip built Sink.bufferAcceptsAll started
    known (by decide) sized rfl (by decide)
  rw [units] at trimmed
  have sorted : surroundEncoder.descriptors.sortedElements = [surroundElement] := sortedOne _ _
  rw [sorted] at decoded
  exact ⟨w, s, inputs, bytes, parsed, started, units, Option.some.inj trimmed, pushed, read, decoded⟩

end Iamf.Wire
