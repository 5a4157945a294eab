import Iamf.AcceptedUnits
import Iamf.EncoderStart
import Iamf.Packing

/-! Packing loses nothing, and gives each substream what the encoder asks of it. -/
namespace Iamf.Wire
open Bits BitString TapeCodec Blocks

namespace SubstreamPlan

def Lands (plan : SubstreamPlan) (sample channel : Nat) (slot : Nat × Nat) : Prop :=
  ∃ j, plan.At channel (slot.1, j) ∧ slot.2 = sample * plan.width slot.1 + j

def unpackBlock (plan : SubstreamPlan) (bytesPerSample : Nat) (packed : List Bytes) (sample channel : Nat) : Bytes :=
  match plan.placeOf channel with
  | some (k, j) => block bytesPerSample (sample * plan.width k + j) (packed.getD k [])
  | none => []

def unpackSubstreams (plan : SubstreamPlan) (samples bytesPerSample : Nat) (packed : List Bytes) : Bytes :=
  (List.range samples).flatMap fun sample =>
    (List.range plan.channelCount).flatMap (plan.unpackBlock bytesPerSample packed sample)

section

variable {plan : SubstreamPlan} (sound : plan.Sound)
include sound

theorem atInside {channel : Nat} {place : Nat × Nat} (here : plan.At channel place) :
    place.2 < plan.width place.1 ∧ channel < plan.channelCount := by
  obtain ⟨spec, at', position⟩ := here
  have short : place.2 < spec.channels.sources.length := (List.getElem?_eq_some_iff.mp position).1
  rw [SubstreamChannels.sourcesLength, widthAt sound at'] at short
  exact ⟨short, sourceInside sound (List.mem_of_getElem? at') channel (List.mem_of_getElem? position)⟩

theorem landsOnce {channel : Nat} (inside : channel < plan.channelCount) (sample : Nat) :
    ∃! slot, plan.Lands sample channel slot := by
  obtain ⟨⟨k, j⟩, _, here⟩ := placeOfAt sound inside
  refine ⟨(k, sample * plan.width k + j), ⟨j, here, rfl⟩, ?_⟩
  rintro ⟨k', i⟩ ⟨j', there, position⟩
  cases atOnce sound here there
  exact Prod.ext rfl position

theorem landsOnto {k samples i : Nat} (known : k < plan.substreams.length) (inside : i < samples * plan.width k) :
    ∃! cell : Nat × Nat, cell.1 < samples ∧ cell.2 < plan.channelCount ∧ plan.Lands cell.1 cell.2 (k, i) := by
  have here : plan.substreams[k]? = some plan.substreams[k] := List.getElem?_eq_getElem known
  have positive : 0 < plan.width k := Nat.pos_of_ne_zero fun empty => by simp [empty] at inside
  have short : i % plan.width k < plan.substreams[k].channels.sources.length := by
    rw [SubstreamChannels.sourcesLength, widthAt sound here]
    exact Nat.mod_lt i positive
  have position := List.getElem?_eq_getElem short
  have at' : plan.At plan.substreams[k].channels.sources[i % plan.width k] (k, i % plan.width k) :=
    ⟨_, here, position⟩
  refine ⟨(i / plan.width k, plan.substreams[k].channels.sources[i % plan.width k]),
    ⟨(Nat.div_lt_iff_lt_mul positive).mpr inside, (atInside sound at').2, _, at', (Nat.div_add_mod' ..).symm⟩, ?_⟩
  rintro ⟨sample, channel⟩ ⟨_, _, j, there, split⟩
  obtain ⟨rows, columns⟩ := rowColumnOnce (atInside sound there).1 (Nat.mod_lt i positive)
    (split.symm.trans (Nat.div_add_mod' ..).symm)
  obtain ⟨spec, again, position'⟩ := there
  cases here.symm.trans again
  rw [columns] at position'
  exact Prod.ext rows (Option.some.inj (position'.symm.trans position))

end

end SubstreamPlan

section

variable {plan : SubstreamPlan} {interleaved : Bytes} {bytesPerSample samples : Nat} (sound : plan.Sound)
  (length : interleaved.length = samples * plan.channelCount * bytesPerSample)
include sound length

theorem payloadBlocks {spec : SubstreamSpec} (among : spec ∈ plan.substreams) :
    ∀ place ∈ places samples plan.channelCount spec.channels.sources,
      (block bytesPerSample place interleaved).length = bytesPerSample := fun place here =>
  blockLength length (placesBelow (SubstreamPlan.sourceInside sound among) place here)

theorem payloadLength {spec : SubstreamSpec} (among : spec ∈ plan.substreams) :
    (substreamPayload interleaved plan.channelCount bytesPerSample samples spec).length =
      samples * spec.channels.sources.length * bytesPerSample := by
  rw [substreamPayload, flatMapLength (payloadBlocks sound length among), placesLength]

theorem payloadBlock {spec : SubstreamSpec} (among : spec ∈ plan.substreams) {sample channel j : Nat}
    (early : sample < samples) (here : spec.channels.sources[j]? = some channel) :
    block bytesPerSample (sample * spec.channels.sources.length + j)
        (substreamPayload interleaved plan.channelCount bytesPerSample samples spec) =
      block bytesPerSample (sample * plan.channelCount + channel) interleaved :=
  blockFlatMap (payloadBlocks sound length among) (placesGet early here)

theorem payloadsTotal : ∀ specs : List SubstreamSpec, specs ⊆ plan.substreams →
    ((specs.map (substreamPayload interleaved plan.channelCount bytesPerSample samples)).map List.length).sum =
      samples * (specs.flatMap (·.channels.sources)).length * bytesPerSample
  | [], _ => by simp
  | spec :: specs, within => by
    obtain ⟨among, others⟩ := List.cons_subset.mp within
    rw [List.map_cons, List.map_cons, List.sum_cons, payloadLength sound length among, payloadsTotal specs others,
      List.flatMap_cons, List.length_append]
    ring

end

/-- What is packed is the input, each block of it at its place and at no other. -/
structure PacksLosslessly (plan : SubstreamPlan) (interleaved : Bytes) (bytesPerSample samples : Nat)
    (packed : List Bytes) : Prop where
  count : packed.length = plan.substreamCount.toNat
  sized : ∀ k payload, packed[k]? = some payload → payload.length = samples * plan.width k * bytesPerSample
  once : ∀ sample < samples, ∀ channel < plan.channelCount, ∃! slot, plan.Lands sample channel slot
  onto : ∀ k < packed.length, ∀ i < samples * plan.width k, ∃! cell : Nat × Nat,
    cell.1 < samples ∧ cell.2 < plan.channelCount ∧ plan.Lands cell.1 cell.2 (k, i)
  moved : ∀ sample < samples, ∀ channel k i, plan.Lands sample channel (k, i) → ∃ payload, packed[k]? = some payload ∧
    i < samples * plan.width k ∧
    block bytesPerSample i payload = block bytesPerSample (sample * plan.channelCount + channel) interleaved
  total : (packed.map List.length).sum = interleaved.length
  unpacked : plan.unpackSubstreams samples bytesPerSample packed = interleaved

section

variable {plan : SubstreamPlan} {interleaved : Bytes} {bytesPerSample samples : Nat} (sound : plan.Sound)
  (length : interleaved.length = samples * plan.channelCount * bytesPerSample)
include sound length

theorem landsMoved {sample channel k i : Nat} (early : sample < samples) (lands : plan.Lands sample channel (k, i)) :
    ∃ payload, (plan.substreams.map
        (substreamPayload interleaved plan.channelCount bytesPerSample samples))[k]? = some payload ∧
      i < samples * plan.width k ∧
      block bytesPerSample i payload = block bytesPerSample (sample * plan.channelCount + channel) interleaved := by
  obtain ⟨j, here, split⟩ := lands
  have inside := (SubstreamPlan.atInside sound here).1
  obtain ⟨spec, at', position⟩ := here
  dsimp only at at' position split inside
  refine ⟨_, by rw [List.getElem?_map, at']; rfl, ?_, ?_⟩
  · exact split ▸ cellBelow early inside
  · rw [split, ← SubstreamPlan.widthAt sound at', ← SubstreamChannels.sourcesLength]
    exact payloadBlock sound length (List.mem_of_getElem? at') early position

theorem payloadsUnpacked : plan.unpackSubstreams samples bytesPerSample
    (plan.substreams.map (substreamPayload interleaved plan.channelCount bytesPerSample samples)) = interleaved := by
  have cell : ∀ sample < samples, ∀ channel < plan.channelCount, plan.unpackBlock bytesPerSample
      (plan.substreams.map (substreamPayload interleaved plan.channelCount bytesPerSample samples)) sample channel =
        block bytesPerSample (sample * plan.channelCount + channel) interleaved := by
    intro sample early channel inside
    obtain ⟨⟨k, j⟩, placed, here⟩ := SubstreamPlan.placeOfAt sound inside
    have lands : plan.Lands sample channel (k, sample * plan.width k + j) := ⟨j, here, rfl⟩
    obtain ⟨payload, known, _, same⟩ := landsMoved sound length early lands
    unfold SubstreamPlan.unpackBlock
    rw [placed]
    dsimp only
    rw [List.getD_eq_getElem?_getD, known]
    exact same
  calc plan.unpackSubstreams samples bytesPerSample _
      = (List.range samples).flatMap fun sample => ((List.range plan.channelCount).map
          (sample * plan.channelCount + ·)).flatMap (block bytesPerSample · interleaved) := by
        refine List.flatMap_congr fun sample early => ?_
        rw [List.flatMap_map]
        exact List.flatMap_congr fun channel inside =>
          cell sample (List.mem_range.mp early) channel (List.mem_range.mp inside)
    _ = (places samples plan.channelCount (List.range plan.channelCount)).flatMap (block bytesPerSample · interleaved) :=
        List.flatMap_assoc.symm
    _ = (List.range (samples * plan.channelCount)).flatMap (block bytesPerSample · interleaved) := by rw [placesAll]
    _ = interleaved := blocksJoin length

theorem payloadsLossless : PacksLosslessly plan interleaved bytesPerSample samples
    (plan.substreams.map (substreamPayload interleaved plan.channelCount bytesPerSample samples)) where
  count := by rw [List.length_map, sound.counted]
  sized := by
    intro k payload known
    rw [List.getElem?_map] at known
    obtain ⟨spec, here, rfl⟩ := Option.map_eq_some_iff.mp known
    rw [payloadLength sound length (List.mem_of_getElem? here), SubstreamChannels.sourcesLength,
      SubstreamPlan.widthAt sound here]
  once := fun sample _ _ inside => SubstreamPlan.landsOnce sound inside sample
  onto := fun _ known _ inside => SubstreamPlan.landsOnto sound (by simpa using known) inside
  moved := fun _ early _ _ _ lands => landsMoved sound length early lands
  total := by
    rw [payloadsTotal sound length plan.substreams (List.Subset.refl _), sound.channels.length_eq, List.length_range,
      length]
  unpacked := payloadsUnpacked sound length

end

def AudioElement.OnlyLayer (element : AudioElement) (layer : ChannelAudioLayerConfig) : Prop :=
  ∃ config, element.audioElementType = .channelBased config ∧ config.layers = [layer]

theorem onlyLayerRequired {element : AudioElement} {layer : ChannelAudioLayerConfig} {substreams coupled : UInt8}
    (only : element.OnlyLayer layer)
    (counts : layer.loudspeakerLayout.singleLayerSubstreamCounts = some (substreams, coupled)) :
    validateElementTopology element = .ok () ↔ layer.reconGainIsPresent = false ∧
      layer.substreamCount = substreams ∧ layer.coupledSubstreamCount = coupled := by
  obtain ⟨config, kind, layers⟩ := only
  obtain ⟨n, known, _⟩ := countsBelowChannels counts
  have layouts : checkEach validateLayerLayout [layer] = .ok () := by
    refine checkEachOk.mpr fun other among => ?_
    rw [List.mem_singleton.mp among]
    exact guardedOk.mpr (by rw [known]; rfl)
  unfold validateElementTopology
  rw [kind]
  dsimp only
  rw [layers, exceptBindOf _ layouts]
  dsimp only
  unfold validateSingleLayer
  rw [counts]
  constructor
  · intro ok
    obtain ⟨_, plain, ok⟩ := exceptBindOk ok
    obtain ⟨_, pairs, ok⟩ := exceptBindOk ok
    exact ⟨by simpa using guardedOk.mp plain, beq_iff_eq.mp (guardedOk.mp ok), beq_iff_eq.mp (guardedOk.mp pairs)⟩
  · rintro ⟨plain, total, pairs⟩
    rw [exceptBindOf _ (guardedOk.mpr (by simpa using plain))]
    dsimp only
    rw [exceptBindOf _ (guardedOk.mpr (beq_iff_eq.mpr pairs))]
    exact guardedOk.mpr (beq_iff_eq.mpr total)

theorem onlyLayerChannels {element : AudioElement} {layer : ChannelAudioLayerConfig} (only : element.OnlyLayer layer)
    (k : Nat) : (substreamChannels element k).toNat = if k < layer.coupledSubstreamCount.toNat then 2 else 1 := by
  obtain ⟨config, kind, layers⟩ := only
  unfold substreamChannels
  rw [kind]
  dsimp only
  rw [layers]
  by_cases inside : k < layer.coupledSubstreamCount.toNat <;> simp [inside]

theorem lpcmDemanded {codec : CodecConfig} {lpcm : LpcmDecoderConfig} (kind : codec.decoderConfig = .lpcm lpcm)
    (whole : 1 ≤ lpcm.sampleSize.toNat / 8) (channels : UInt8) (bytes : Bytes) :
    validateFrame codec channels (.lpcm bytes) = .ok () ↔
      bytes.length = codec.numSamplesPerFrame.toNat * channels.toNat * (lpcm.sampleSize.toNat / 8) := by
  refine ⟨fun ok => frameLength ok kind, fun length => ?_⟩
  unfold validateFrame
  rw [kind]
  dsimp only
  rw [exceptBindOf _ (guardedOk.mpr (by simpa using Nat.ne_of_gt whole)),
    exceptBindOf _ (guardedOk.mpr (by rw [length, Nat.mul_mod_left]; rfl))]
  exact guardedOk.mpr (beq_iff_eq.mpr length)

structure SizedForEncoder (layout : LoudspeakerLayout) (plan : SubstreamPlan) (bytesPerSample samples : Nat)
    (packed : List Bytes) : Prop where
  required : ∀ element layer, AudioElement.OnlyLayer element layer → layer.loudspeakerLayout = layout →
    (validateElementTopology element = .ok () ↔ layer.reconGainIsPresent = false ∧
      layer.substreamCount = plan.substreamCount ∧ layer.coupledSubstreamCount = plan.coupledSubstreamCount)
  demanded : ∀ element layer, AudioElement.OnlyLayer element layer → layer.loudspeakerLayout = layout →
    validateElementTopology element = .ok () → ∀ codec lpcm, CodecConfig.decoderConfig codec = .lpcm lpcm →
    lpcm.sampleSize.toNat / 8 = bytesPerSample → codec.numSamplesPerFrame.toNat = samples →
    ∀ k payload, packed[k]? = some payload → ∀ bytes,
      validateFrame codec (substreamChannels element k) (.lpcm bytes) = .ok () ↔ bytes.length = payload.length

theorem losslessSized {layout : LoudspeakerLayout} {plan : SubstreamPlan} {interleaved : Bytes}
    {bytesPerSample samples : Nat} {packed : List Bytes} (positive : 1 ≤ bytesPerSample)
    (counts : layout.singleLayerSubstreamCounts = some (plan.substreamCount, plan.coupledSubstreamCount))
    (lossless : PacksLosslessly plan interleaved bytesPerSample samples packed) :
    SizedForEncoder layout plan bytesPerSample samples packed where
  required := by
    rintro element layer only rfl
    exact onlyLayerRequired only counts
  demanded := by
    rintro element layer only rfl topology codec lpcm kind rfl rfl k payload known bytes
    obtain ⟨_, _, coupled⟩ := (onlyLayerRequired only counts).mp topology
    rw [lpcmDemanded kind positive, onlyLayerChannels only, coupled, lossless.sized k payload known,
      SubstreamPlan.width]

theorem packedLosslessly {layout : LoudspeakerLayout} {plan : SubstreamPlan} {interleaved : Bytes}
    {bytesPerSample samples : Nat} (supported : SubstreamPlan.forLayout layout = .ok plan)
    (positive : 1 ≤ bytesPerSample) (frameFits : plan.channelCount * bytesPerSample ≤ usizeMax)
    (length : interleaved.length = samples * plan.channelCount * bytesPerSample)
    (fits : interleaved.length ≤ usizeMax) :
    ∃ packed, packChannelsToSubstreams plan interleaved plan.channelCount bytesPerSample = .ok packed ∧
      PacksLosslessly plan interleaved bytesPerSample samples packed ∧
      layout.singleLayerSubstreamCounts = some (plan.substreamCount, plan.coupledSubstreamCount) ∧
      SizedForEncoder layout plan bytesPerSample samples packed := by
  obtain ⟨sound, counts⟩ := SubstreamPlan.forLayoutSound supported
  have lossless := payloadsLossless sound length
  refine ⟨_, ?_, lossless, counts, losslessSized positive counts lossless⟩
  have frame : 0 < plan.channelCount * bytesPerSample := Nat.mul_pos (Nat.pos_of_ne_zero sound.carries) positive
  have whole : interleaved.length = samples * (plan.channelCount * bytesPerSample) := by rw [length, Nat.mul_assoc]
  have known : (!(plan.channelCount != plan.channelCount || plan.channelCount == 0 || bytesPerSample == 0)) = true := by
    simpa using ⟨sound.carries, Nat.ne_of_gt positive⟩
  unfold packChannelsToSubstreams
  rw [exceptBindOf _ (guardedOk.mpr known), exceptBindOf _ (checkedMulOf frameFits),
    exceptBindOf _ (guardedOk.mpr (by rw [whole, Nat.mul_mod_left]; rfl)), whole, Nat.mul_div_cancel _ frame]
  exact mapMEach fun spec among => packSubstreamOf length fits positive (SubstreamPlan.sourceInside sound among)
    (SubstreamPlan.sourcesFew sound among)

def surroundPlan : SubstreamPlan :=
  ⟨[⟨obuTypeFor 0, .coupled 0 1⟩, ⟨obuTypeFor 1, .coupled 4 5⟩, ⟨obuTypeFor 2, .mono 2⟩, ⟨obuTypeFor 3, .mono 3⟩]⟩

theorem packedLosslesslySurround : ∃ packed,
    packChannelsToSubstreams surroundPlan [0, 1, 2, 3, 4, 5, 6, 7, 8, 9, 10, 11] 6 1 = .ok packed ∧
      PacksLosslessly surroundPlan [0, 1, 2, 3, 4, 5, 6, 7, 8, 9, 10, 11] 1 2 packed ∧
      LoudspeakerLayout.ch5_1.singleLayerSubstreamCounts =
        some (surroundPlan.substreamCount, surroundPlan.coupledSubstreamCount) ∧
      SizedForEncoder .ch5_1 surroundPlan 1 2 packed :=
  packedLosslessly (by decide : SubstreamPlan.forLayout .ch5_1 = .ok surroundPlan) (by decide) (by decide) rfl
    (by decide)

theorem emptyRefused : ¬ ∀ (layout : LoudspeakerLayout) (plan : SubstreamPlan) (interleaved : Bytes)
    (bytesPerSample samples : Nat), SubstreamPlan.forLayout layout = .ok plan → 1 ≤ bytesPerSample →
    bytesPerSample ≤ usizeMax → interleaved.length = samples * plan.channelCount * bytesPerSample →
    interleaved.length ≤ usizeMax →
    ∃ packed, packChannelsToSubstreams plan interleaved plan.channelCount bytesPerSample = .ok packed := by
  intro claimed
  obtain ⟨packed, ran⟩ := claimed .stereo ⟨[⟨obuTypeFor 0, .coupled 0 1⟩]⟩ [] usizeMax 0 (by decide) (by decide)
    (Nat.le_refl _) rfl (by decide)
  have refused : packChannelsToSubstreams ⟨[⟨obuTypeFor 0, .coupled 0 1⟩]⟩ [] 2 usizeMax = .error packMismatch := by
    decide
  cases refused.symm.trans ran

end Iamf.Wire
