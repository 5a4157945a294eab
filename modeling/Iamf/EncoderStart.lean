import Iamf.DescriptorFits
import Iamf.HandleIds
import Iamf.IdWidths
import Iamf.ProfileSelection

/-! Starting a built encoder. The dry run of `build` encodes the templates, the start encodes the
descriptors; the two differ in the widths of the ids, and at the size limit of an OBU that shows. -/
namespace Iamf.Wire
open Bits BitString TapeCodec

theorem resizedFinish {m n : Nat} {g h : Writer Unit} (resized : Resized m n g h) {a : Bytes}
    (ok : finishWriter g = .ok a) : ∃ b, finishWriter h = .ok b ∧ a.length + n = b.length + m := by
  rcases resized with ⟨left, _⟩ | ⟨as, bs, left, right, lengths⟩
  · obtain ⟨e, failed⟩ := finishWriterRefuses left
    cases failed.symm.trans ok
  have source := congrArg List.length (finishWriterSource left ok)
  rw [bytesBitsLength] at source
  have octets : bs.length = 8 * (bs.length / 8) := by omega
  have packed := packBitsExact _ bs octets
  refine ⟨packBits (bs.length / 8) bs, finishWriterEmits (by rw [packed]; exact right), ?_⟩
  have length := congrArg List.length packed
  rw [bytesBitsLength] at length
  omega

theorem countsBelowChannels {layout : LoudspeakerLayout} {substreams coupled : UInt8}
    (counts : layout.singleLayerSubstreamCounts = some (substreams, coupled)) :
    ∃ n, layout.channelCount = some n ∧ substreams.toNat ≤ n := by
  cases layout with
  | expanded layout => cases layout <;> cases counts <;> exact ⟨_, rfl, by decide⟩
  | _ => cases counts <;> exact ⟨_, rfl, by decide⟩

theorem substreamsBelowChannels {element : AudioElement} (topology : validateElementTopology element = .ok ())
    (clean : element.validate = []) : element.audioSubstreamIds.length ≤ channels element := by
  unfold validateElementTopology at topology
  unfold AudioElement.validate at clean
  unfold channels elementChannelCount
  cases kind : element.audioElementType with
  | reserved value raw =>
    rw [kind] at topology
    cases topology
  | sceneBased config =>
    rw [kind] at topology
    cases config with
    | mono config =>
      have sound := guardedOk.mp topology
      simp only [monoConfigSound, Bool.and_eq_true, beq_iff_eq, decide_eq_true_eq] at sound
      obtain ⟨⟨⟨⟨⟨_, below⟩, count⟩, _⟩, _⟩, _⟩ := sound
      exact count ▸ UInt8.le_iff_toNat_le.mp below
    | projection config => cases topology
    | reserved mode => cases topology
  | channelBased config =>
    rw [kind] at topology clean
    simp only [List.append_eq_nil_iff, AudioElement.validateChannelBased, findingIfNil] at clean
    obtain ⟨_, single⟩ := exceptBindOk topology
    obtain ⟨_, single⟩ := single
    have declared := clean.1.1.2.1.2
    split at single
    · rename_i layer layers
      obtain ⟨_, _, single⟩ := exceptBindOk single
      split at single
      · cases single
      · rename_i counts
        obtain ⟨_, _, count⟩ := exceptBindOk single
        obtain ⟨n, known, below⟩ := countsBelowChannels counts
        have same := beq_iff_eq.mp (guardedOk.mp count)
        simp only [layers, List.map_cons, List.map_nil, List.sum_cons, List.sum_nil, Nat.add_zero,
          bne_eq_false_iff_eq] at declared
        simp only [layers, List.getLast?_singleton, known]
        rw [← declared, same]
        exact below
    · cases single

namespace Built

variable {b : EncoderBuilder} {encoder : Encoder} {manifest : IdManifest}

theorem ceilings (built : Built b encoder manifest) : b.audioElements.length ≤ 28 ∧
    (encoder.descriptors.audioElements.map channels).sum ≤ 28 := by
  obtain ⟨_, _, ⟨floor, floored, _⟩, _⟩ := selectSequenceProfileOk built.selected
  obtain ⟨ceilings, _⟩ := sequenceFloorOk.mp floored
  have distinct := positionalNodup built.elementsPositional
  have length := (lowerEachAt built.lowering.2.1).1
  have all : uniqueElements encoder.descriptors.audioElements = encoder.descriptors.audioElements.toFinset := by
    refine Finset.filter_true_of_mem fun element among => ?_
    obtain ⟨i, at'⟩ := List.mem_iff_getElem?.mp (List.mem_toFinset.mp among)
    exact positionalFind built.elementsPositional at'
  constructor
  · have count := ceilings.count
    rw [Wire.elementIds, List.toFinset_card_of_nodup distinct, List.length_map] at count
    exact length ▸ count
  · have total := ceilings.channels
    rwa [all, List.sum_toFinset channels distinct.of_map] at total

theorem substreamsFew (built : Built b encoder manifest) : b.substreams.length ≤ 28 := by
  have lowered : encoder.descriptors.audioElements.map channels = b.audioElements.map fun d => channels d.element := by
    refine List.ext_getElem? fun i => ?_
    rw [List.getElem?_map, List.getElem?_map]
    cases at' : b.audioElements[i]? with
    | some d =>
      rw [(built.element at').2]
      rfl
    | none =>
      have outside := List.getElem?_eq_none_iff.mp at'
      rw [← (lowerEachAt built.lowering.2.1).1] at outside
      rw [List.getElem?_eq_none_iff.mpr outside]
      rfl
  have each : ∀ d ∈ b.audioElements, d.substreams.length ≤ channels d.element := by
    intro d among
    have checked := built.checked.elements d among
    rw [checked.count]
    exact substreamsBelowChannels checked.topology checked.findings
  have total : (b.audioElements.map (·.substreams.length)).sum ≤ (b.audioElements.map fun d => channels d.element).sum :=
    List.sum_le_sum each
  have covered : List.range b.substreams.length ⊆ (b.audioElements.flatMap (·.substreams)).map (·.index) := by
    intro i inside
    obtain ⟨d, among, used⟩ := built.substreamsUsed (List.mem_range.mp inside)
    exact List.mem_map.mpr ⟨_, List.mem_flatMap.mpr ⟨d, among, used⟩, rfl⟩
  have count := (List.subperm_of_subset List.nodup_range covered).length_le
  have ceiling := built.ceilings.2
  rw [lowered] at ceiling
  rw [List.length_range, List.length_map, List.length_flatMap] at count
  omega

theorem templatesFit (built : Built b encoder manifest) : b.resolved.templates.Fit := by
  obtain ⟨w, written⟩ := built.checked.templates.written
  have octets := (agreeDescriptors b.resolved.templates).left
  refine b.resolved.templates.written.mp ?_
  cases encoded : finishWriter (writeDescriptors b.resolved.templates) with
  | ok bytes => exact ⟨bytes, encoded⟩
  | error e =>
    obtain ⟨e', w', failed, _⟩ := octets.2 e encoded .new rfl
    unfold runWriter at written
    rw [failed] at written
    cases written

end Built

theorem resizedOctet (v u : UInt8) : Resized 0 0 (writeUnsigned v.toNat 8) (writeUnsigned u.toNat 8) := by
  refine .inr ⟨_, _, emitsUnsigned (by omega) v.toNat_lt, emitsUnsigned (by omega) u.toNat_lt, ?_⟩
  rw [bitsOfLength, bitsOfLength]

theorem headerFits (profile : UInt8) (fits : Fits (writeIaSequenceHeader (.new 0 0))) :
    Fits (writeIaSequenceHeader (.new profile profile)) := by
  have resized : Resized 0 0 (writeIaSequenceHeader (.new 0 0)) (writeIaSequenceHeader (.new profile profile)) := by
    have ordered (p : UInt8) : (!decide (p < p)) = true := by
      rw [decide_eq_false (UInt8.lt_irrefl p)]
      rfl
    unfold writeIaSequenceHeader IaSequenceHeader.new
    simp only [ordered]
    refine resizedBehind (definiteEnsure _ _) (resizedBehind (definiteUnsigned (by omega) _) ?_)
    have last := resizedBefore (k := fun _ => writeBytes []) (resizedOctet 0 profile) (definiteBytes [])
    exact resizedBind (k := 0) (l := 0) (resizedOctet 0 profile) last
  obtain ⟨payload, encoded, short⟩ := fits
  obtain ⟨payload', encoded', lengths⟩ := resizedFinish resized encoded
  exact ⟨payload', encoded', by omega⟩

theorem fitsNarrow {g h : Writer Unit} {xs ys : List UInt32} (resized : Resized (idBytes xs) (idBytes ys) g h)
    (same : xs.length = ys.length) (narrow : ∀ id ∈ ys, id.toNat < 128) (fits : Fits g) : Fits h := by
  obtain ⟨payload, encoded, short⟩ := fits
  obtain ⟨lowered, encoded', lengths⟩ := resizedFinish resized encoded
  have width := idBytesSmall narrow
  have least := idBytesLong xs
  exact ⟨lowered, encoded', by omega⟩

theorem narrowId {n : Nat} (small : n < 128) : (UInt32.ofNat n).toNat < 128 := by
  rw [UInt32.toNat_ofNat', Nat.mod_eq_of_lt (by omega)]
  exact small

namespace Built

variable {b : EncoderBuilder} {encoder : Encoder} {manifest : IdManifest}

theorem singleConfig (built : Built b encoder manifest) : b.codecConfigs.length ≤ 1 := built.checked.single

theorem configsFit (built : Built b encoder manifest) :
    ∀ config ∈ encoder.descriptors.codecConfigs, Fits (writeCodecConfig config) := by
  intro config among
  obtain ⟨i, at'⟩ := List.mem_iff_getElem?.mp among
  obtain ⟨declared, from', _⟩ := lowerEachFrom built.lowering.1 at'
  cases at'.symm.trans (built.config from').2
  have inside := (List.getElem?_eq_some_iff.mp from').1
  have single := built.singleConfig
  have template := built.templatesFit.configs declared (List.mem_of_getElem? from')
  refine fitsNarrow (CodecConfig.resized (v := declared) rfl) rfl (fun id one => ?_) template
  rw [List.mem_singleton.mp one]
  exact narrowId (by omega)

theorem elementsFit (built : Built b encoder manifest) :
    ∀ element ∈ encoder.descriptors.audioElements, Fits (writeAudioElement element) := by
  intro element among
  obtain ⟨i, at'⟩ := List.mem_iff_getElem?.mp among
  obtain ⟨d, from', _⟩ := lowerEachFrom built.lowering.2.1 at'
  cases at'.symm.trans (built.element from').2
  have declared := List.mem_of_getElem? from'
  have template := built.templatesFit.elements d.element (List.mem_map_of_mem declared)
  have count := (built.checked.elements d declared).count
  have sizes : d.element.ids.length = (d.lowered i).ids.length := by
    simp only [AudioElement.ids, AudioElementDeclaration.lowered, List.length_cons, handleIds, List.length_map, count]
  refine fitsNarrow (AudioElement.resized (built.elementIds from').template.symm) sizes (fun id one => ?_) template
  have inside := (List.getElem?_eq_some_iff.mp from').1
  have few := built.ceilings.1
  have codec : d.codecConfig.index < b.codecConfigs.length := (built.configKnown declared).2
  have single := built.singleConfig
  rcases List.mem_cons.mp one with rfl | one
  · exact narrowId (by omega)
  rcases List.mem_cons.mp one with rfl | one
  · exact narrowId (by omega)
  · obtain ⟨handle, used, rfl⟩ := List.mem_map.mp one
    have known : handle.index < b.substreams.length := (built.substreamKnown declared used).2
    have substreams := built.substreamsFew
    exact narrowId (by omega)

end Built

def MixPresentationDeclaration.loweredIds (declaration : MixPresentationDeclaration) (index : Nat) : List UInt32 :=
  UInt32.ofNat index :: (handleIds declaration.audioElements ++ handleIds declaration.parameters)

namespace EncoderBuilder

/-- No presentation is so close to the limit of an OBU that wider ids would take it beyond. -/
def LoweringFits (b : EncoderBuilder) : Prop :=
  ∀ i d, b.mixPresentations[i]? = some d → ∀ payload,
    finishWriter (writeMixPresentation (b.resolvedPresentation d).presentation) = .ok payload →
      payload.length + idBytes (d.loweredIds i) ≤ payloadMax + idBytes (b.resolvedPresentation d).presentation.ids

end EncoderBuilder

namespace Built

variable {b : EncoderBuilder} {encoder : Encoder} {manifest : IdManifest}

theorem presentationFits (built : Built b encoder manifest) {i : Nat} {d : MixPresentationDeclaration}
    (at' : b.mixPresentations[i]? = some d) {presentation : MixPresentation}
    (lowered : LoweredPresentation (b.resolvedPresentation d) i presentation) :
    Fits (writeMixPresentation presentation) ↔ ∀ payload,
      finishWriter (writeMixPresentation (b.resolvedPresentation d).presentation) = .ok payload →
        payload.length + idBytes (d.loweredIds i) ≤ payloadMax + idBytes (b.resolvedPresentation d).presentation.ids := by
  have among : (b.resolvedPresentation d).presentation ∈ b.resolved.templates.mixPresentations :=
    List.mem_map_of_mem (List.mem_map_of_mem (List.mem_of_getElem? at'))
  obtain ⟨template, encoded, _⟩ := built.templatesFit.presentations _ among
  obtain ⟨payload, encoded', lengths⟩ := resizedFinish (MixPresentation.resized lowered.same.symm) encoded
  have ids : presentation.ids = d.loweredIds i := by
    rw [MixPresentation.ids, lowered.id, lowered.references, lowered.gains]
    rfl
  rw [ids] at lengths
  constructor
  · intro fits first same
    obtain ⟨other, again, short⟩ := fits
    cases encoded.symm.trans same
    cases encoded'.symm.trans again
    omega
  · intro short
    have below := short template encoded
    exact ⟨payload, encoded', by omega⟩

theorem fits (built : Built b encoder manifest) : encoder.descriptors.Fit ↔ b.LoweringFits := by
  constructor
  · intro fit i d at'
    obtain ⟨presentation, here, lowered⟩ := built.presentation at'
    exact (built.presentationFits at' lowered).mp (fit.presentations presentation (List.mem_of_getElem? here))
  · intro each
    have header : Fits (writeIaSequenceHeader encoder.descriptors.sequenceHeader) := by
      rw [built.header]
      exact headerFits _ built.templatesFit.header
    refine ⟨header, built.configsFit, built.elementsFit, fun presentation among => ?_⟩
    obtain ⟨i, here⟩ := List.mem_iff_getElem?.mp among
    obtain ⟨resolved, from', _⟩ := lowerEachFrom built.lowering.2.2 here
    rw [b.resolvedAt] at from'
    obtain ⟨d, at', _⟩ := Option.map_eq_some_iff.mp from'
    obtain ⟨presentation', here', lowered⟩ := built.presentation at'
    cases here.symm.trans here'
    exact (built.presentationFits at' lowered).mpr (each i d at')

theorem few (built : Built b encoder manifest) : encoder.descriptors.count * entireObuSizeMax ≤ u64Max := by
  have configs := (lowerEachAt built.lowering.1).1
  have elements := (lowerEachAt built.lowering.2.1).1
  have presentations := (lowerEachAt built.lowering.2.2).1
  obtain ⟨⟨_, small1⟩, ⟨_, small2⟩, ⟨_, small3⟩, _⟩ := built.manifestIs
  rw [show b.resolved.mixPresentations.length = b.mixPresentations.length from List.length_map _] at presentations
  have bound : encoder.descriptors.count ≤ 1 + 3 * (u32Max + 1) := by
    unfold DescriptorSet.count
    omega
  exact le_trans (Nat.mul_le_mul_right _ bound) (by decide)

end Built

theorem builtStarts {b : EncoderBuilder} {encoder : Encoder} {manifest : IdManifest} (built : Built b encoder manifest)
    {W : Sink} (all : W.AcceptsAll) (sink : W.State) :
    (∃ w s, encoder.start sink = .ok w s) ↔ b.LoweringFits :=
  (startFits all sink built.few).trans built.fits

/-- A built encoder starts on every sink that takes everything, and its descriptors can be written,
exactly when the wider ids leave each presentation inside its OBU. -/
theorem startsIffLoweringFits {b : EncoderBuilder} {encoder : Encoder} {manifest : IdManifest}
    (ok : b.build = .ok (encoder, manifest)) :
    ((∀ W : Sink, W.AcceptsAll → ∀ sink : W.State, ∃ w s, encoder.start sink = .ok w s) ↔ b.LoweringFits) ∧
      ((∃ bytes, finishWriter (writeDescriptors encoder.descriptors) = .ok bytes) ↔ b.LoweringFits) := by
  have built := buildOk.mp ok
  constructor
  · constructor
    · intro starts
      exact (builtStarts built Sink.bufferAcceptsAll []).mp (starts Sink.buffer Sink.bufferAcceptsAll [])
    · intro fits W all sink
      exact (builtStarts built all sink).mpr fits
  · exact encoder.descriptors.written.trans built.fits

theorem startsIffLoweringFitsStereo : ∃ encoder manifest, (stereoBuilder 7 3).build = .ok (encoder, manifest) ∧
    ((∀ W : Sink, W.AcceptsAll → ∀ sink : W.State, ∃ w s, encoder.start sink = .ok w s) ↔
      (stereoBuilder 7 3).LoweringFits) ∧
    ((∃ bytes, finishWriter (writeDescriptors encoder.descriptors) = .ok bytes) ↔ (stereoBuilder 7 3).LoweringFits) := by
  obtain ⟨encoder, manifest, ok⟩ := stereoBuilds
  exact ⟨encoder, manifest, ok, startsIffLoweringFits ok⟩

def paddedPresentation (trailing : Bytes) : MixPresentation := { stereoPresentation 0 with trailing := trailing }

def paddedGains : List ParameterDeclaration := [⟨none, .mode1 0 48000⟩, ⟨none, .mode1 1 48000⟩]

def declarePadded (element : AudioElementHandle) (trailing : Bytes) : EncoderBuilder.Declare MixPresentationHandle := do
  let gain ← EncoderBuilder.addMixGainParameter (.mode1 0 48000)
  let output ← EncoderBuilder.addMixGainParameter (.mode1 1 48000)
  EncoderBuilder.addMixPresentationWithParameters [element] [gain, output] (paddedPresentation trailing)

def declareAllPadded (trailing : List Bytes) : EncoderBuilder.Declare (List MixPresentationHandle) := do
  let codec ← EncoderBuilder.addCodecConfig (.lpcm 0 960 ⟨.littleEndian, 16, 48000⟩)
  let element ← EncoderBuilder.addAudioElement codec (stereoElement 0)
  trailing.mapM (declarePadded element)

def paddedDeclaration (generation : UInt64) (element : AudioElementHandle) (first : Nat) (trailing : Bytes) :
    MixPresentationDeclaration :=
  ⟨[element], [⟨generation, first⟩, ⟨generation, first + 1⟩], paddedPresentation trailing⟩

theorem declarePaddedIs (element : AudioElementHandle) (trailing : Bytes) (b : EncoderBuilder) :
    (declarePadded element trailing b).2 = { b with
      mixPresentations := b.mixPresentations ++ [paddedDeclaration b.generation element b.parameters.length trailing]
      parameters := b.parameters ++ paddedGains } := by
  have lengths (x : ParameterDeclaration) : (b.parameters ++ [x]).length = b.parameters.length + 1 := by simp
  have joined (x y : ParameterDeclaration) : b.parameters ++ [x] ++ [y] = b.parameters ++ [x, y] := by simp
  unfold paddedDeclaration paddedGains
  rw [← lengths ⟨none, .mode1 0 48000⟩, ← joined]
  rfl

theorem declarePaddedEach (element : AudioElementHandle) (trailing : List Bytes) (b : EncoderBuilder) :
    ((trailing.mapM (declarePadded element) : EncoderBuilder.Declare _) b).2 = { b with
      mixPresentations := b.mixPresentations ++ trailing.mapIdx fun i bytes =>
        paddedDeclaration b.generation element (b.parameters.length + 2 * i) bytes
      parameters := b.parameters ++ trailing.flatMap fun _ => paddedGains } := by
  induction trailing generalizing b with
  | nil => simp; rfl
  | cons bytes trailing ih =>
    have opened : (((bytes :: trailing).mapM (declarePadded element) : EncoderBuilder.Declare _) b).2 =
        ((trailing.mapM (declarePadded element) : EncoderBuilder.Declare _) (declarePadded element bytes b).2).2 := by
      rw [List.mapM_cons]
      rfl
    have moved (i : Nat) : (b.parameters ++ paddedGains).length + 2 * i = b.parameters.length + 2 * (i + 1) := by
      simp only [List.length_append, paddedGains, List.length_cons, List.length_nil]
      omega
    rw [opened, ih, declarePaddedIs]
    simp only [moved, List.mapIdx_cons, List.flatMap_cons, List.append_assoc]
    rfl

def paddedBuilder (trailing : List Bytes) : EncoderBuilder :=
  ⟨7, [.lpcm 0 960 ⟨.littleEndian, 16, 48000⟩], [⟨⟨7, 0⟩, [⟨7, 0⟩], stereoElement 0⟩],
    trailing.mapIdx fun i bytes => paddedDeclaration 7 ⟨7, 0⟩ (2 * i) bytes, [some 0], trailing.flatMap fun _ => paddedGains⟩

theorem paddedDeclared (trailing : List Bytes) : (declareAllPadded trailing (.new 7)).2 = paddedBuilder trailing := by
  refine (declarePaddedEach ⟨7, 0⟩ trailing (paddedBuilder [])).trans ?_
  simp only [paddedBuilder, List.mapIdx_nil, List.flatMap_nil, List.nil_append, List.length_nil, Nat.zero_add]

-- sixty-five presentations of one element; the last is as long as an OBU can be
def tightTrailing : List Bytes := List.replicate 64 [] ++ [List.replicate (payloadMax - 28) 0]

def tightBuilder : EncoderBuilder := paddedBuilder tightTrailing

theorem tightParameters : tightBuilder.ParametersResolve where
  counts d among := by
    obtain ⟨i, inside, rfl⟩ := List.mem_mapIdx.mp among
    rfl
  known := by
    unfold EncoderBuilder.KnowsParameter
    decide +kernel
  once := by decide +kernel
  all := by decide +kernel

theorem tightResolved : tightBuilder.resolved = tightBuilder := by
  have gains : ∀ i < 65, tightBuilder.declaredGain ⟨7, 2 * i⟩ = some (.mode1 0 48000) ∧
      tightBuilder.declaredGain ⟨7, 2 * i + 1⟩ = some (.mode1 1 48000) := by decide +kernel
  have same : ∀ d ∈ tightBuilder.mixPresentations, tightBuilder.resolvedPresentation d = d := by
    intro d among
    obtain ⟨i, inside, rfl⟩ := List.mem_mapIdx.mp among
    have count : tightTrailing.length = 65 := by decide +kernel
    obtain ⟨first, second⟩ := gains i (by omega)
    unfold EncoderBuilder.resolvedPresentation paddedDeclaration
    simp only [List.filterMap_cons, first, second]
    rfl
  unfold EncoderBuilder.resolved
  rw [List.map_congr_left same, List.map_id']

theorem trailingLast (presentation : MixPresentation) (trailing : Bytes) :
    writeMixPresentation { presentation with trailing := trailing } =
      (writeMixPresentation { presentation with trailing := [] } >>= fun _ => writeBytes trailing) := by
  simp only [writeMixPresentation, writeBytesNil, bind_assoc, pure_bind]
  rfl

theorem paddedWritten (trailing : Bytes) : ∃ front, front.length = 28 ∧
    finishWriter (writeMixPresentation (paddedPresentation trailing)) = .ok (front ++ trailing) := by
  have moved : writeMixPresentation (paddedPresentation trailing) =
      (writeMixPresentation (paddedPresentation []) >>= fun _ => writeBytes trailing) :=
    trailingLast (stereoPresentation 0) trailing
  have length : (finishWriter (writeMixPresentation (paddedPresentation []))).toOption.map List.length = some 28 := by
    decide +kernel
  cases encoded : finishWriter (writeMixPresentation (paddedPresentation [])) with
  | error e =>
    rw [encoded] at length
    cases length
  | ok front =>
    rw [encoded] at length
    refine ⟨front, Option.some.inj length, ?_⟩
    rw [moved]
    exact finishWriterTrailing.mpr ⟨front, encoded, rfl⟩

theorem tightShort {trailing : Bytes} (among : trailing ∈ tightTrailing) : trailing.length ≤ payloadMax - 28 := by
  rcases List.mem_append.mp among with early | last
  · rw [List.eq_of_mem_replicate early]
    exact Nat.zero_le _
  · rw [List.mem_singleton.mp last, List.length_replicate]

theorem fitsOf {g : Writer Unit} (short : (finishWriter g).toOption.any (fun payload => payload.length ≤ payloadMax) = true) :
    Fits g := by
  cases encoded : finishWriter g with
  | error e =>
    rw [encoded] at short
    cases short
  | ok payload =>
    rw [encoded] at short
    exact ⟨payload, encoded, of_decide_eq_true short⟩

theorem tightFits : tightBuilder.templates.Fit where
  header := fitsOf (by decide +kernel)
  configs := by
    intro config among
    rw [List.mem_singleton.mp among]
    exact fitsOf (by decide +kernel)
  elements := by
    intro element among
    rw [List.mem_singleton.mp among]
    exact fitsOf (by decide +kernel)
  presentations := by
    intro presentation among
    obtain ⟨d, declared, rfl⟩ := List.mem_map.mp among
    obtain ⟨i, inside, rfl⟩ := List.mem_mapIdx.mp declared
    have short := tightShort (List.getElem_mem inside)
    obtain ⟨front, length, encoded⟩ := paddedWritten tightTrailing[i]
    have room : 28 ≤ payloadMax := by decide
    exact ⟨_, encoded, by rw [List.length_append]; omega⟩

theorem tightChecked : tightBuilder.Checked := by
  have elements : tightBuilder.templates.sortedElements = tightBuilder.templates.audioElements := sortedOne _ _
  have registry : ParamDefinitionRegistry.fromDescriptors tightBuilder.templates =
      tightBuilder.templates.mixPresentations.foldl ParamDefinitionRegistry.observeMixPresentation .new := by
    unfold ParamDefinitionRegistry.fromDescriptors
    rw [elements]
    rfl
  have definitions : ∀ entry ∈ (ParamDefinitionRegistry.fromDescriptors tightBuilder.templates).entries,
      validateParameterDefinition entry.definition = .ok () := by
    rw [registry]
    decide +kernel
  have written : ∃ w, runWriter (writeDescriptors tightBuilder.templates) = .ok w := by
    obtain ⟨bytes, encoded⟩ := tightBuilder.templates.written.mpr tightFits
    obtain ⟨w, ran, _⟩ := exceptBindOk encoded
    exact ⟨w, ran⟩
  have each : ∀ d ∈ tightBuilder.audioElements, tightBuilder.validateAudioElement d = .ok () := by decide +kernel
  have presentations : ∀ d ∈ tightBuilder.mixPresentations, tightBuilder.validateMixPresentation d = .ok () := by
    decide +kernel
  exact {
    implicitSubstreams := by decide +kernel
    implicitParameters := by decide +kernel
    parameters := by decide +kernel
    configs := by decide +kernel
    single := by decide +kernel
    timing := by decide +kernel
    elements := fun d among => EncoderBuilder.validateAudioElementOk.mp (each d among)
    presentations := fun d among => EncoderBuilder.validateMixPresentationOk.mp (presentations d among)
    used := by decide +kernel
    templates := ⟨definitions, by decide +kernel, written, by decide +kernel⟩ }

theorem tightBuilds : ∃ encoder manifest, tightBuilder.build = .ok (encoder, manifest) := by
  have resolved := EncoderBuilder.resolveOk.mpr ⟨tightParameters, tightResolved.symm⟩
  have allocated : tightBuilder.allocateManifest.toOption.isSome = true := by decide +kernel
  have selected : (tightBuilder.lowerDescriptors.toOption.any fun set =>
      (selectSequenceProfile set.audioElements set.mixPresentations).toOption.isSome) = true := by decide +kernel
  unfold EncoderBuilder.build
  rw [exceptBindOf _ resolved, exceptBindOf _ (EncoderBuilder.validateDeclarationsOk.mpr tightChecked)]
  cases manifest : tightBuilder.allocateManifest with
  | error e =>
    rw [manifest] at allocated
    cases allocated
  | ok manifest =>
  cases lowered : tightBuilder.lowerDescriptors with
  | error e =>
    rw [lowered] at selected
    cases selected
  | ok set =>
  rw [lowered] at selected
  change (selectSequenceProfile set.audioElements set.mixPresentations).toOption.isSome = true at selected
  cases profile : selectSequenceProfile set.audioElements set.mixPresentations with
  | error e =>
    rw [profile] at selected
    cases selected
  | ok profiles => exact ⟨_, _, exceptBindOf _ profile⟩

theorem paddedLast (trailing : Bytes) :
    (paddedBuilder (List.replicate 64 [] ++ [trailing])).mixPresentations[64]? =
      some (paddedDeclaration 7 ⟨7, 0⟩ 128 trailing) := by
  have last : (List.replicate 64 [] ++ [trailing])[64]? = some trailing := rfl
  unfold paddedBuilder
  rw [List.getElem?_mapIdx, last]
  rfl

theorem paddedTooWide {b : EncoderBuilder} {trailing : Bytes} (length : trailing.length = payloadMax - 28)
    (resolved : b.resolved = b) (last : b.mixPresentations[64]? = some (paddedDeclaration 7 ⟨7, 0⟩ 128 trailing)) :
    ¬ b.LoweringFits := by
  intro fits
  obtain ⟨front, width, encoded⟩ := paddedWritten trailing
  have same := b.resolvedAt 64
  rw [resolved, last, Option.map_some] at same
  have below := fits 64 _ last
  rw [← Option.some.inj same] at below
  have beyond := below _ encoded
  have wide : idBytes ((paddedDeclaration 7 ⟨7, 0⟩ 128 trailing).loweredIds 64) = 6 := rfl
  have narrow : idBytes (paddedDeclaration 7 ⟨7, 0⟩ 128 trailing).presentation.ids = 4 := rfl
  have room : 28 ≤ payloadMax := by decide
  rw [List.length_append, width, length, wide, narrow] at beyond
  omega

theorem tightTooWide : ¬ tightBuilder.LoweringFits :=
  paddedTooWide List.length_replicate tightResolved (paddedLast _)

theorem startFailsBehindDryRun : Sink.buffer.AcceptsAll ∧ ∃ encoder manifest,
    (declareAllPadded tightTrailing (.new 7)).2.build = .ok (encoder, manifest) ∧
      ∃ e sequence, encoder.start (W := Sink.buffer) [] = .error e sequence := by
  obtain ⟨encoder, manifest, ok⟩ := tightBuilds
  refine ⟨Sink.bufferAcceptsAll, encoder, manifest, by rw [paddedDeclared]; exact ok, ?_⟩
  cases started : encoder.start (W := Sink.buffer) [] with
  | ok w s => exact absurd ((builtStarts (buildOk.mp ok) Sink.bufferAcceptsAll []).mp ⟨w, s, started⟩) tightTooWide
  | error e sequence => exact ⟨e, sequence, rfl⟩

end Iamf.Wire
