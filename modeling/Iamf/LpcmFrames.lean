import Iamf.FramePlan
import Iamf.PackedSubstreams

/-! LPCM in frames: what a caller of the encoder cuts, pads, packs and trims, and how the samples come
back out of the frames of the substreams. -/
namespace Iamf.Wire
open Bits BitString TapeCodec Blocks

-- `Vec::resize` with zeros
def resized (n : Nat) (bytes : Bytes) : Bytes := bytes.take n ++ List.replicate (n - bytes.length) 0

structure ElementSpec where
  numSamplesPerFrame : UInt32
  bytesPerSample : Nat
  plan : SubstreamPlan

def firstLayout (element : AudioElement) : Option LoudspeakerLayout :=
  match element.audioElementType with
  | .channelBased config => config.layers.head?.map (·.loudspeakerLayout)
  | _ => none

def specFor (configs : List CodecConfig) (element : AudioElement) : Option ElementSpec := do
  let config ← configs.find? (·.codecConfigId == element.codecConfigId)
  let lpcm ← config.lpcmConfig
  let layout ← firstLayout element
  let plan ← (SubstreamPlan.forLayout layout).toOption
  some ⟨config.numSamplesPerFrame, (lpcm.sampleSize.toNat + 7) / 8, plan⟩

namespace ElementSpec

def sampleBytes (spec : ElementSpec) : Nat := spec.plan.channelCount * spec.bytesPerSample

def frameBytes (spec : ElementSpec) : Nat := spec.numSamplesPerFrame.toNat * spec.sampleBytes

def chunk (spec : ElementSpec) (stored : Bytes) (index : Nat) : Bytes :=
  resized spec.frameBytes ((stored.drop (index * spec.frameBytes)).take spec.frameBytes)

def packed (spec : ElementSpec) (stored : Bytes) (index : Nat) : Except Error (List Bytes) :=
  packChannelsToSubstreams spec.plan (spec.chunk stored index) spec.plan.channelCount spec.bytesPerSample

def kept (spec : ElementSpec) (trimming : Option Trimming) (interleaved : Bytes) : Bytes :=
  let (atStart, atEnd) := FramePlan.trims trimming
  (interleaved.take ((spec.numSamplesPerFrame.toNat - atEnd) * spec.sampleBytes)).drop (atStart * spec.sampleBytes)

def unpacked (spec : ElementSpec) (payloads : List Bytes) : Bytes :=
  spec.plan.unpackSubstreams spec.numSamplesPerFrame.toNat spec.bytesPerSample payloads

def payloads (spec : ElementSpec) (stored : Bytes) (index : Nat) : List Bytes :=
  spec.plan.substreams.map (substreamPayload (spec.chunk stored index) spec.plan.channelCount spec.bytesPerSample
    spec.numSamplesPerFrame.toNat)

structure Sound (spec : ElementSpec) : Prop where
  plan : spec.plan.Sound
  samples : 0 < spec.numSamplesPerFrame.toNat
  width : 0 < spec.bytesPerSample
  small : spec.frameBytes ≤ usizeMax

variable {spec : ElementSpec}

theorem chunkLength (stored : Bytes) (index : Nat) : (spec.chunk stored index).length = spec.frameBytes := by
  unfold chunk resized
  rw [List.length_append, List.length_take, List.length_replicate]
  omega

theorem chunkCells (stored : Bytes) (index : Nat) : (spec.chunk stored index).length =
    spec.numSamplesPerFrame.toNat * spec.plan.channelCount * spec.bytesPerSample := by
  rw [chunkLength, frameBytes, sampleBytes, Nat.mul_assoc]

theorem chunkInside {stored : Bytes} {index : Nat} (inside : (index + 1) * spec.frameBytes ≤ stored.length) :
    spec.chunk stored index = block spec.frameBytes index stored := by
  rw [Nat.succ_mul] at inside
  have whole : ((stored.drop (index * spec.frameBytes)).take spec.frameBytes).length = spec.frameBytes := by
    rw [List.length_take, List.length_drop]
    omega
  unfold chunk resized
  rw [whole, Nat.sub_self, List.replicate_zero, List.append_nil, List.take_take, Nat.min_self]
  rfl

theorem chunkLast {stored : Bytes} {index rest : Nat} (length : stored.length = index * spec.frameBytes + rest)
    (short : rest ≤ spec.frameBytes) : (spec.chunk stored index).take rest = stored.drop (index * spec.frameBytes) := by
  have behind : (stored.drop (index * spec.frameBytes)).length = rest := by
    rw [List.length_drop, length, Nat.add_sub_cancel_left]
  have all : (stored.drop (index * spec.frameBytes)).take spec.frameBytes = stored.drop (index * spec.frameBytes) :=
    List.take_of_length_le (behind.trans_le short)
  unfold chunk resized
  rw [all, all, List.take_left' behind]

theorem packedOf (sound : spec.Sound) (stored : Bytes) (index : Nat) :
    spec.packed stored index = .ok (spec.payloads stored index) := by
  have channels := Nat.pos_of_ne_zero sound.plan.carries
  have bytes : 0 < spec.plan.channelCount * spec.bytesPerSample := Nat.mul_pos channels sound.width
  have length : (spec.chunk stored index).length = spec.frameBytes := chunkLength stored index
  have small := sound.small
  have sample : spec.sampleBytes ≤ spec.frameBytes := Nat.le_mul_of_pos_left _ sound.samples
  have count : spec.frameBytes / spec.sampleBytes = spec.numSamplesPerFrame.toNat := Nat.mul_div_left _ bytes
  have whole : spec.frameBytes % spec.sampleBytes = 0 := Nat.mul_mod_left _ _
  unfold packed packChannelsToSubstreams
  rw [exceptBindOf _ (guardedOk.mpr ?shape), exceptBindOf _ (checkedMulOf (sample.trans small)),
    exceptBindOf _ (guardedOk.mpr ?cells)]
  case shape =>
    simp only [bne_self_eq_false, Bool.false_or, Bool.not_eq_true', Bool.or_eq_false_iff, beq_eq_false_iff_ne]
    exact ⟨channels.ne', sound.width.ne'⟩
  case cells => rw [length]; exact beq_iff_eq.mpr whole
  rw [length]
  change spec.plan.substreams.mapM (packSubstream _ _ _ _ (spec.frameBytes / spec.sampleBytes)) = _
  rw [count]
  exact mapMEach fun substream among => packSubstreamOf (chunkCells stored index) (length.trans_le small) sound.width
    (SubstreamPlan.sourceInside sound.plan among) (SubstreamPlan.sourcesFew sound.plan among)

theorem unpackedPayloads (sound : spec.Sound) (stored : Bytes) (index : Nat) :
    spec.unpacked (spec.payloads stored index) = spec.chunk stored index :=
  payloadsUnpacked sound.plan (chunkCells stored index)

theorem keptWhole {interleaved : Bytes} (length : interleaved.length = spec.frameBytes) :
    spec.kept none interleaved = interleaved := by
  change (interleaved.take ((spec.numSamplesPerFrame.toNat - 0) * spec.sampleBytes)).drop (0 * spec.sampleBytes) = _
  rw [Nat.sub_zero, Nat.zero_mul, List.drop_zero]
  exact List.take_of_length_le length.le

theorem keptLast (plan : FramePlan) (interleaved : Bytes) : spec.kept plan.lastTrimming interleaved =
    interleaved.take ((spec.numSamplesPerFrame.toNat - plan.trimAtEnd.toNat) * spec.sampleBytes) := by
  unfold kept
  rw [FramePlan.trimsLast]
  dsimp only
  rw [Nat.zero_mul, List.drop_zero]

theorem chunksJoin {stored : Bytes} {k : Nat} (inside : k * spec.frameBytes ≤ stored.length) :
    (List.range k).flatMap (spec.chunk stored) = stored.take (k * spec.frameBytes) := by
  have length : (stored.take (k * spec.frameBytes)).length = k * spec.frameBytes := by
    rw [List.length_take, Nat.min_eq_left inside]
  rw [← blocksJoin length]
  refine List.flatMap_congr fun i among => ?_
  have below : (i + 1) * spec.frameBytes ≤ k * spec.frameBytes :=
    Nat.mul_le_mul_right _ (List.mem_range.mp among)
  rw [chunkInside (below.trans inside), block, block, List.drop_take, List.take_take]
  rw [Nat.succ_mul] at below
  rw [Nat.min_eq_left (by omega)]

theorem keptJoin {total : UInt64} {frames : FramePlan} (sound : spec.Sound)
    (planned : Planned total spec.numSamplesPerFrame frames) {stored : Bytes}
    (length : stored.length = total.toNat * spec.sampleBytes) :
    (List.range frames.frameCount.toNat).flatMap (fun i =>
      spec.kept (frames.trimmingFor (UInt64.ofNat i)) (spec.chunk stored i)) = stored := by
  rcases planned.cases sound.samples with ⟨none, zero⟩ | ⟨k, count, _, whole⟩
  · have idle : frames.frameCount.toNat = 0 := by
      have trimmings := congrArg List.length none
      unfold FramePlan.trimmings at trimmings
      rwa [List.length_map, List.length_range] at trimmings
    rw [zero, Nat.zero_mul] at length
    rw [idle, List.length_eq_zero_iff.mp length]
    rfl
  · have most := frames.frameCount.toNat_lt
    have index {i : Nat} (below : i ≤ k) : (UInt64.ofNat i).toNat = i := by
      rw [UInt64.toNat_ofNat', Nat.mod_eq_of_lt (by omega)]
    have rest : (spec.numSamplesPerFrame.toNat - frames.trimAtEnd.toNat) * spec.sampleBytes ≤ spec.frameBytes :=
      Nat.mul_le_mul_right _ (Nat.sub_le _ _)
    rw [← whole, Nat.add_mul, Nat.mul_assoc] at length
    change stored.length = k * spec.frameBytes + _ at length
    have front : (List.range k).flatMap (fun i =>
        spec.kept (frames.trimmingFor (UInt64.ofNat i)) (spec.chunk stored i)) = stored.take (k * spec.frameBytes) := by
      rw [← chunksJoin (length ▸ Nat.le_add_right _ _)]
      refine List.flatMap_congr fun i among => ?_
      have below := List.mem_range.mp among
      rw [FramePlan.trimmingForIs, index (Nat.le_of_lt below), if_neg (by omega), keptWhole (chunkLength stored i)]
    rw [count, List.range_succ, List.flatMap_append, front, List.flatMap_singleton, FramePlan.trimmingForIs,
      index (Nat.le_refl k), if_pos count.symm, keptLast, chunkLast length rest, List.take_append_drop]

end ElementSpec

end Iamf.Wire
