import Iamf.Blocks
import Iamf.EncodingWriter

/-! Which channels go into which substream and in what order. Samples are moved as they are. -/
namespace Iamf.Wire
open BitString TapeCodec Blocks

-- the target's addresses have 64 bits
def usizeMax : Nat := u64Max

def checkedMul (a b : Nat) (e : Error) : Except Error Nat := if a * b ≤ usizeMax then .ok (a * b) else .error e

def checkedAdd (a b : Nat) (e : Error) : Except Error Nat := if a + b ≤ usizeMax then .ok (a + b) else .error e

inductive SubstreamChannels where
  | coupled (first second : Nat)
  | mono (only : Nat)
  deriving DecidableEq, Repr

namespace SubstreamChannels

def channelCount : SubstreamChannels → Nat
  | .coupled .. => 2
  | .mono _ => 1

def isCoupled : SubstreamChannels → Bool
  | .coupled .. => true
  | .mono _ => false

def sources : SubstreamChannels → List Nat
  | .coupled first second => [first, second]
  | .mono only => [only]

theorem sourcesLength (channels : SubstreamChannels) : channels.sources.length = channels.channelCount := by
  cases channels <;> rfl

end SubstreamChannels

structure SubstreamSpec where
  obuType : ObuType
  channels : SubstreamChannels
  deriving DecidableEq

structure SubstreamPlan where
  substreams : List SubstreamSpec
  deriving DecidableEq

-- coupled pairs first, and the centre before the low frequencies
def substreamGroups : LoudspeakerLayout → Except Error (List SubstreamChannels)
  | .stereo | .binaural => .ok [.coupled 0 1]
  | .mono => .ok [.mono 0]
  | .ch5_1 => .ok [.coupled 0 1, .coupled 4 5, .mono 2, .mono 3]
  | _ => .error ⟨.unsupportedLayout, .field "loudspeaker_layout"⟩

def u8OrMax (n : Nat) : UInt8 := if n ≤ 255 then UInt8.ofNat n else 255

namespace SubstreamPlan

def spec (entry : SubstreamChannels × Nat) : Except Error SubstreamSpec := do
  let id ← u32TryFrom entry.2 ⟨.unsupportedLayout, .field "substream_index"⟩
  .ok ⟨obuTypeFor id, entry.1⟩

def forLayout (layout : LoudspeakerLayout) : Except Error SubstreamPlan := do
  let groups ← substreamGroups layout
  let substreams ← groups.zipIdx.mapM spec
  .ok ⟨substreams⟩

def substreamCount (plan : SubstreamPlan) : UInt8 := u8OrMax plan.substreams.length

def coupledSubstreamCount (plan : SubstreamPlan) : UInt8 :=
  u8OrMax (plan.substreams.countP (·.channels.isCoupled))

def channelCount (plan : SubstreamPlan) : Nat :=
  plan.substreams.foldl (fun total spec => min (total + spec.channels.channelCount) usizeMax) 0

end SubstreamPlan

def packMismatch : Error := ⟨.channelCountMismatch, .field "interleaved"⟩

section

variable (interleaved : Bytes) (channelCount bytesPerSample : Nat)

def packSource (frameStart source : Nat) : Except Error Bytes := do
  guarded (!(source ≥ channelCount)) packMismatch
  let offset ← checkedMul source bytesPerSample packMismatch
  let start ← checkedAdd offset frameStart packMismatch
  let stop ← checkedAdd start bytesPerSample packMismatch
  guarded (stop ≤ interleaved.length) packMismatch
  .ok ((interleaved.drop start).take (stop - start))

def packSample (frameBytes : Nat) (sources : List Nat) (payload : Bytes) (sample : Nat) : Except Error Bytes := do
  let frameStart ← checkedMul sample frameBytes packMismatch
  sources.foldlM (fun payload source => do
    let bytes ← packSource interleaved channelCount bytesPerSample frameStart source
    .ok (payload ++ bytes)) payload

def packSubstream (frameBytes samples : Nat) (spec : SubstreamSpec) : Except Error Bytes := do
  let sources := spec.channels.sources
  let total ← checkedMul samples sources.length packMismatch
  let _ ← checkedMul total bytesPerSample packMismatch
  (List.range samples).foldlM (packSample interleaved channelCount bytesPerSample frameBytes sources) []

end

def packChannelsToSubstreams (plan : SubstreamPlan) (interleaved : Bytes) (channelCount bytesPerSample : Nat) :
    Except Error (List Bytes) := do
  guarded (!(channelCount != plan.channelCount || channelCount == 0 || bytesPerSample == 0)) packMismatch
  let frameBytes ← checkedMul channelCount bytesPerSample packMismatch
  guarded (interleaved.length % frameBytes == 0) packMismatch
  plan.substreams.mapM
    (packSubstream interleaved channelCount bytesPerSample frameBytes (interleaved.length / frameBytes))

example : (SubstreamPlan.forLayout .ch5_1).bind
    (packChannelsToSubstreams · [0, 1, 2, 3, 4, 5, 6, 7, 8, 9, 10, 11] 6 1) =
    .ok [[0, 1, 6, 7], [4, 5, 10, 11], [2, 8], [3, 9]] := by decide

theorem mapMEach {T U : Type} {f : T → Except Error U} {g : T → U} {items : List T}
    (each : ∀ item ∈ items, f item = .ok (g item)) : items.mapM f = .ok (items.map g) := by
  induction items with
  | nil => rfl
  | cons item items ih =>
    obtain ⟨head, tail⟩ := List.forall_mem_cons.mp each
    rw [List.mapM_cons, exceptBindOf _ head, exceptBindOf _ (ih tail)]
    rfl

theorem foldlMEach {T U : Type} {f : List U → T → Except Error (List U)} {g : T → List U} {items : List T}
    (each : ∀ item ∈ items, ∀ done, f done item = .ok (done ++ g item)) (done : List U) :
    items.foldlM f done = .ok (done ++ items.flatMap g) := by
  induction items generalizing done with
  | nil => rw [List.flatMap_nil, List.append_nil]; rfl
  | cons item items ih =>
    obtain ⟨head, tail⟩ := List.forall_mem_cons.mp each
    rw [List.foldlM_cons, exceptBindOf _ (head done), ih tail, List.flatMap_cons, List.append_assoc]

theorem checkedMulOf {a b : Nat} {e : Error} (fits : a * b ≤ usizeMax) : checkedMul a b e = .ok (a * b) := if_pos fits

theorem checkedAddOf {a b : Nat} {e : Error} (fits : a + b ≤ usizeMax) : checkedAdd a b e = .ok (a + b) := if_pos fits

def substreamPayload (interleaved : Bytes) (channelCount bytesPerSample samples : Nat) (spec : SubstreamSpec) : Bytes :=
  (places samples channelCount spec.channels.sources).flatMap fun place => block bytesPerSample place interleaved

section

variable {interleaved : Bytes} {channelCount bytesPerSample samples : Nat}
  (length : interleaved.length = samples * channelCount * bytesPerSample) (fits : interleaved.length ≤ usizeMax)
include length fits

theorem packSourceOf {sample source : Nat} (early : sample < samples) (inside : source < channelCount) :
    packSource interleaved channelCount bytesPerSample (sample * (channelCount * bytesPerSample)) source =
      .ok (block bytesPerSample (sample * channelCount + source) interleaved) := by
  have start : source * bytesPerSample + sample * (channelCount * bytesPerSample) =
      (sample * channelCount + source) * bytesPerSample := by ring
  have last : (sample * channelCount + source) * bytesPerSample + bytesPerSample ≤ interleaved.length := by
    have cells : sample * channelCount + source + 1 ≤ samples * channelCount := cellBelow early inside
    have whole := Nat.mul_le_mul_right bytesPerSample cells
    rw [Nat.add_mul _ 1, Nat.one_mul] at whole
    omega
  unfold packSource
  rw [exceptBindOf _ (guardedOk.mpr (by simpa using inside)), exceptBindOf _ (checkedMulOf (by omega)),
    exceptBindOf _ (checkedAddOf (by omega)), start, exceptBindOf _ (checkedAddOf (by omega)),
    exceptBindOf _ (guardedOk.mpr (by simpa using last)), Nat.add_sub_cancel_left]
  rfl

theorem packSampleOf {sources : List Nat} (inside : ∀ source ∈ sources, source < channelCount) {sample : Nat}
    (early : sample < samples) (payload : Bytes) :
    packSample interleaved channelCount bytesPerSample (channelCount * bytesPerSample) sources payload sample =
      .ok (payload ++ sources.flatMap fun source =>
        block bytesPerSample (sample * channelCount + source) interleaved) := by
  have rows : sample * (channelCount * bytesPerSample) ≤ samples * (channelCount * bytesPerSample) :=
    Nat.mul_le_mul_right _ (Nat.le_of_lt early)
  rw [← Nat.mul_assoc samples] at rows
  unfold packSample
  rw [exceptBindOf _ (checkedMulOf (by omega))]
  refine foldlMEach (fun source among done => ?_) payload
  rw [exceptBindOf _ (packSourceOf length fits early (inside source among))]

theorem packSubstreamOf (positive : 0 < bytesPerSample) {spec : SubstreamSpec}
    (inside : ∀ source ∈ spec.channels.sources, source < channelCount)
    (few : spec.channels.sources.length ≤ channelCount) :
    packSubstream interleaved channelCount bytesPerSample (channelCount * bytesPerSample) samples spec =
      .ok (substreamPayload interleaved channelCount bytesPerSample samples spec) := by
  have count : samples * spec.channels.sources.length ≤ samples * channelCount := Nat.mul_le_mul_left _ few
  have total := Nat.mul_le_mul_right bytesPerSample count
  have single := Nat.le_mul_of_pos_right (samples * spec.channels.sources.length) positive
  unfold packSubstream
  rw [exceptBindOf _ (checkedMulOf (by omega)), exceptBindOf _ (checkedMulOf (by omega)),
    foldlMEach (fun sample among => packSampleOf length fits inside (List.mem_range.mp among)) [],
    List.nil_append, substreamPayload, places, List.flatMap_assoc]
  simp only [List.flatMap_map]

end

namespace SubstreamPlan

def width (plan : SubstreamPlan) (k : Nat) : Nat := if k < plan.coupledSubstreamCount.toNat then 2 else 1

structure Sound (plan : SubstreamPlan) : Prop where
  channels : (plan.substreams.flatMap (·.channels.sources)).Perm (List.range plan.channelCount)
  carries : plan.channelCount ≠ 0
  counted : plan.substreamCount.toNat = plan.substreams.length
  coupledFirst : plan.substreams.map (·.channels.channelCount) = List.replicate plan.coupledSubstreamCount.toNat 2 ++
    List.replicate (plan.substreams.length - plan.coupledSubstreamCount.toNat) 1

theorem forLayoutSound {layout : LoudspeakerLayout} {plan : SubstreamPlan} (supported : forLayout layout = .ok plan) :
    plan.Sound ∧ layout.singleLayerSubstreamCounts = some (plan.substreamCount, plan.coupledSubstreamCount) := by
  cases layout with
  | mono => cases supported; exact ⟨⟨by decide, by decide, by decide, by decide⟩, by decide⟩
  | stereo => cases supported; exact ⟨⟨by decide, by decide, by decide, by decide⟩, by decide⟩
  | binaural => cases supported; exact ⟨⟨by decide, by decide, by decide, by decide⟩, by decide⟩
  | ch5_1 => cases supported; exact ⟨⟨by decide, by decide, by decide, by decide⟩, by decide⟩
  | _ => cases supported

section

variable {plan : SubstreamPlan} (sound : plan.Sound)
include sound

theorem sourceInside {spec : SubstreamSpec} (among : spec ∈ plan.substreams) :
    ∀ source ∈ spec.channels.sources, source < plan.channelCount := fun _ inside =>
  List.mem_range.mp (sound.channels.mem_iff.mp (List.mem_flatMap.mpr ⟨spec, among, inside⟩))

theorem sourceApart {spec : SubstreamSpec} (among : spec ∈ plan.substreams) : spec.channels.sources.Nodup :=
  (List.nodup_flatMap.mp (sound.channels.nodup_iff.mpr List.nodup_range)).1 spec among

theorem sourcesFew {spec : SubstreamSpec} (among : spec ∈ plan.substreams) :
    spec.channels.sources.length ≤ plan.channelCount := by
  have within : spec.channels.sources ⊆ List.range plan.channelCount := fun source inside =>
    List.mem_range.mpr (sourceInside sound among source inside)
  simpa using (List.subperm_of_subset (sourceApart sound among) within).length_le

theorem widthAt {k : Nat} {spec : SubstreamSpec} (here : plan.substreams[k]? = some spec) :
    spec.channels.channelCount = plan.width k := by
  unfold width
  have inside := (List.getElem?_eq_some_iff.mp here).1
  have at' : (plan.substreams.map (·.channels.channelCount))[k]? = some spec.channels.channelCount := by
    rw [List.getElem?_map, here]
    rfl
  rw [sound.coupledFirst, List.getElem?_append, List.length_replicate] at at'
  split at at'
  · rename_i coupled
    rw [List.getElem?_replicate, if_pos coupled] at at'
    rw [if_pos coupled]
    exact (Option.some.inj at').symm
  · rename_i single
    rw [List.getElem?_replicate, if_pos (by omega)] at at'
    rw [if_neg single]
    exact (Option.some.inj at').symm

end

def At (plan : SubstreamPlan) (channel : Nat) (place : Nat × Nat) : Prop :=
  ∃ spec, plan.substreams[place.1]? = some spec ∧ spec.channels.sources[place.2]? = some channel

theorem substreamsApart {plan : SubstreamPlan} (sound : plan.Sound) {channel k k' : Nat} {spec spec' : SubstreamSpec}
    (here : plan.substreams[k]? = some spec) (there : plan.substreams[k']? = some spec')
    (carries : channel ∈ spec.channels.sources) (carries' : channel ∈ spec'.channels.sources) : ¬ k < k' := by
  intro earlier
  obtain ⟨inside, rfl⟩ := List.getElem?_eq_some_iff.mp here
  obtain ⟨inside', rfl⟩ := List.getElem?_eq_some_iff.mp there
  have apart := (List.nodup_flatMap.mp (sound.channels.nodup_iff.mpr List.nodup_range)).2
  exact List.pairwise_iff_getElem.mp apart k k' inside inside' earlier carries carries'

theorem atOnce {plan : SubstreamPlan} (sound : plan.Sound) {channel : Nat} {place other : Nat × Nat}
    (here : plan.At channel place) (there : plan.At channel other) : place = other := by
  obtain ⟨k, j⟩ := place
  obtain ⟨k', j'⟩ := other
  obtain ⟨spec, at', position⟩ := here
  obtain ⟨spec', at'', position'⟩ := there
  have before := substreamsApart sound at' at'' (List.mem_of_getElem? position) (List.mem_of_getElem? position')
  have after := substreamsApart sound at'' at' (List.mem_of_getElem? position') (List.mem_of_getElem? position)
  obtain rfl : k = k' := Nat.le_antisymm (Nat.le_of_not_lt after) (Nat.le_of_not_lt before)
  cases at'.symm.trans at''
  have inside := (List.getElem?_eq_some_iff.mp position).1
  have apart := sourceApart sound (List.mem_of_getElem? at')
  have same : j = j' := (List.getElem?_inj inside apart).mp (position.trans position'.symm)
  rw [same]

def placeOf (plan : SubstreamPlan) (channel : Nat) : Option (Nat × Nat) :=
  plan.substreams.zipIdx.findSome? fun entry => (entry.1.channels.sources.idxOf? channel).map (entry.2, ·)

theorem placeOfAt {plan : SubstreamPlan} (sound : plan.Sound) {channel : Nat} (inside : channel < plan.channelCount) :
    ∃ place, plan.placeOf channel = some place ∧ plan.At channel place := by
  obtain ⟨spec, among, carries⟩ := List.mem_flatMap.mp (sound.channels.mem_iff.mpr (List.mem_range.mpr inside))
  have found : (plan.placeOf channel).isSome = true := by
    obtain ⟨k, here⟩ := List.getElem?_of_mem among
    refine List.findSome?_isSome_iff.mpr ⟨(spec, k), List.mem_zipIdx_iff_getElem?.mpr here, ?_⟩
    simpa [List.isSome_idxOf?] using carries
  obtain ⟨place, placed⟩ := Option.isSome_iff_exists.mp found
  obtain ⟨⟨other, k⟩, listed, at'⟩ := List.exists_of_findSome?_eq_some placed
  obtain ⟨j, position, rfl⟩ := Option.map_eq_some_iff.mp at'
  refine ⟨_, placed, other, List.mem_zipIdx_iff_getElem?.mp listed, ?_⟩
  obtain ⟨short, is, _⟩ := List.idxOf?_eq_some_iff.mp position
  exact List.getElem?_eq_some_iff.mpr ⟨short, is⟩

end SubstreamPlan

end Iamf.Wire
