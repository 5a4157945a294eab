import Iamf.ProfileSelection
import Iamf.SequenceValidate

/-! Written out in wire order, a descriptor set is found to break the rules it breaks as a set:
lookups bind to the same element in both orders, and equal ids make as many pairs. -/
namespace Iamf.Wire
open TapeCodec Keyed

def CodecConfig.bare (config : CodecConfig) : CodecConfig := { config with trailing := [] }

def AudioElement.bare (element : AudioElement) : AudioElement := { element with trailing := [] }

def MixPresentation.bare (presentation : MixPresentation) : MixPresentation := { presentation with trailing := [] }

section

variable {T : Type} (id : T → UInt32)

theorem sortedPerm (items : List T) : (sortedById id items).Perm items := List.mergeSort_perm ..

theorem findSorted (wanted : UInt32) (items : List T) :
    (sortedById id items).find? (fun item => id item == wanted) = items.find? fun item => id item == wanted := by
  refine findMergeSort ?_ ?_ ?_ items
  · intro a b c first second
    simp only [decide_eq_true_eq] at first second ⊢
    exact UInt32.le_trans first second
  · intro a b
    simp only [Bool.or_eq_true, decide_eq_true_eq]
    exact UInt32.le_total _ _
  · intro a b first second
    rw [eq_of_beq first, eq_of_beq second]
    exact decide_eq_true (UInt32.le_refl _)

end

def Rebound (elements others : List AudioElement) : Prop :=
  ∀ id, elementById others id = (elementById elements id).map AudioElement.bare

theorem reboundSorted (elements : List AudioElement) :
    Rebound elements ((sortedById (·.audioElementId) elements).map AudioElement.bare) := by
  intro id
  rw [elementById, List.find?_map]
  congr 1
  exact findSorted (·.audioElementId) id elements

theorem presentationFloorBare (references : List AudioElement) :
    presentationFloor (references.map AudioElement.bare) = presentationFloor references := by
  unfold presentationFloor totalChannelCount presentationTier baseCombinationAllowed
  rw [List.foldlM_map]
  simp only [List.length_map, List.any_map, List.countP_map]
  rfl

theorem resolveRebound {elements others : List AudioElement} (rebound : Rebound elements others) (ids : List UInt32) :
    ids.mapM (resolveReference others) = (ids.mapM (resolveReference elements)).map (List.map AudioElement.bare) := by
  induction ids with
  | nil => rfl
  | cons id ids ih =>
    have one : resolveReference others id = (resolveReference elements id).map AudioElement.bare := by
      unfold resolveReference
      rw [rebound id]
      cases elementById elements id <;> rfl
    rw [List.mapM_cons, List.mapM_cons, one, ih]
    cases resolveReference elements id with
    | error e => rfl
    | ok element =>
      cases ids.mapM (resolveReference elements) with
      | error e => rfl
      | ok rest => rfl

theorem presentationProfileRebound {elements others : List AudioElement} (rebound : Rebound elements others)
    (presentation : MixPresentation) :
    presentationMinimumProfile presentation.bare others = presentationMinimumProfile presentation elements := by
  change presentationMinimumProfile presentation others = _
  unfold presentationMinimumProfile
  rw [resolveRebound rebound]
  cases presentation.references.mapM (resolveReference elements) with
  | error e => rfl
  | ok references =>
    change (if _ then _ else if _ then _ else presentationFloor (references.map AudioElement.bare)) = _
    rw [presentationFloorBare]
    rfl

theorem complianceRebound {elements others : List AudioElement} (rebound : Rebound elements others)
    (primary additional : UInt8) (presentations : List MixPresentation) :
    complianceFindings primary additional others (presentations.map MixPresentation.bare) =
      complianceFindings primary additional elements presentations := by
  have complies (profile : Profile) : compliesWith others (presentations.map MixPresentation.bare) profile =
      compliesWith elements presentations profile := by
    unfold compliesWith
    rw [List.any_map]
    simp only [Function.comp_def, presentationProfileRebound rebound]
  unfold complianceFindings
  simp only [complies]

theorem uniqueRebound {elements others : List AudioElement} (rebound : Rebound elements others) :
    (uniqueById others).Perm ((uniqueById elements).map AudioElement.bare) := by
  obtain ⟨members, apart⟩ := uniqueByIdSpec elements
  obtain ⟨members', _⟩ := uniqueByIdSpec others
  have nodup : ((uniqueById elements).map AudioElement.bare).Nodup := by
    refine List.Nodup.of_map AudioElement.audioElementId ?_
    rw [List.map_map]
    exact apart
  refine (List.perm_ext_iff_of_nodup (uniqueNodup others) nodup).mpr fun element => ?_
  rw [members', rebound, List.mem_map, Option.map_eq_some_iff]
  constructor
  · rintro ⟨first, found, rfl⟩
    exact ⟨first, (members first).mpr (by rw [← found]; rfl), rfl⟩
  · rintro ⟨first, among, rfl⟩
    exact ⟨first, (members first).mp among, rfl⟩

def listFloor (unique : List AudioElement) : Except Error Profile := do
  checkElementCount unique.length
  let channelCount ← totalChannelCount unique
  checkChannelCount channelCount
  .ok (sequenceCountFloor unique)

theorem channelCountFails {element : AudioElement} {e : Error} (failed : elementChannelCount element = .error e) :
    e = unsupportedChannels := by
  unfold elementChannelCount at failed
  split at failed
  · split at failed
    · cases failed
      rfl
    · split at failed <;> cases failed
      rfl
  · split at failed <;> cases failed
    rfl
  · cases failed
    rfl

theorem channelCountLe {element : AudioElement} {count : Nat} (ok : elementChannelCount element = .ok count) :
    count ≤ 255 := by
  unfold elementChannelCount at ok
  split at ok
  · split at ok
    · cases ok
    · split at ok
      · cases ok
      · rename_i layer _ _ number
        cases ok
        unfold LoudspeakerLayout.channelCount ExpandedLoudspeakerLayout.channelCount at number
        split at number
        all_goals first
          | (cases number; decide)
          | (split at number <;> cases number <;> decide)
          | cases number
  · split at ok
    · cases ok
    · cases ok
      exact Nat.le_of_lt_succ (UInt8.toNat_lt _)
  · cases ok

theorem totalChannelsFails {elements : List AudioElement} {start : Nat} {e : Error}
    (few : start + 255 * elements.length ≤ u32Max) (failed : elements.foldlM addChannels start = .error e) :
    e = unsupportedChannels := by
  induction elements generalizing start with
  | nil => cases failed
  | cons element elements ih =>
    rw [List.length_cons] at few
    rw [List.foldlM_cons] at failed
    cases counted : elementChannelCount element with
    | error e' =>
      have stopped : addChannels start element = .error e' := by
        rw [addChannels, counted]
        rfl
      rw [stopped] at failed
      cases failed
      exact channelCountFails counted
    | ok count =>
      have small := channelCountLe counted
      have added : addChannels start element = .ok (start + count) := by
        rw [addChannels, exceptBindOf _ counted, if_pos (by omega)]
      rw [exceptBindOf _ added] at failed
      exact ih (by omega) failed

theorem sequenceCountFloorPerm {xs ys : List AudioElement} (perm : xs.Perm ys) :
    sequenceCountFloor xs = sequenceCountFloor ys := by
  unfold sequenceCountFloor baseCombinationAllowed
  rw [perm.any_eq, perm.length_eq, perm.countP_eq isSceneBased, perm.countP_eq isMultiLayer]

theorem listFloorPerm {xs ys : List AudioElement} (perm : xs.Perm ys) : listFloor xs = listFloor ys := by
  unfold listFloor
  rw [perm.length_eq, sequenceCountFloorPerm perm]
  cases counted : checkElementCount ys.length with
  | error e => rfl
  | ok u =>
    have few := checkElementCountOk.mp counted
    have small (zs : List AudioElement) (length : zs.length ≤ 28) : 0 + 255 * zs.length ≤ u32Max := by
      unfold u32Max
      omega
    have total : totalChannelCount xs = totalChannelCount ys := by
      unfold totalChannelCount
      cases left : xs.foldlM addChannels 0 with
      | ok n =>
        obtain ⟨fixed, sum, inside⟩ := (totalChannelsOk (Nat.zero_le _)).mp left
        refine ((totalChannelsOk (Nat.zero_le _)).mpr ⟨fun e among => fixed e (perm.mem_iff.mpr among), ?_, inside⟩).symm
        rw [sum, (perm.map channels).sum_eq]
      | error e =>
        cases right : ys.foldlM addChannels 0 with
        | error e' =>
          rw [totalChannelsFails (small xs (perm.length_eq ▸ few)) left, totalChannelsFails (small ys few) right]
        | ok n =>
          obtain ⟨fixed, sum, inside⟩ := (totalChannelsOk (Nat.zero_le _)).mp right
          have whole : xs.foldlM addChannels 0 = .ok n := by
            refine (totalChannelsOk (Nat.zero_le _)).mpr ⟨fun e among => fixed e (perm.mem_iff.mp among), ?_, inside⟩
            rw [sum, (perm.map channels).sum_eq]
          cases left.symm.trans whole
    rw [total]

theorem sequenceCountFloorBare (unique : List AudioElement) :
    sequenceCountFloor (unique.map AudioElement.bare) = sequenceCountFloor unique := by
  unfold sequenceCountFloor baseCombinationAllowed
  simp only [List.length_map, List.any_map, List.countP_map]
  rfl

theorem limitsRebound {elements others : List AudioElement} (rebound : Rebound elements others) (primary : UInt8) :
    sequenceLimitFindings primary others = sequenceLimitFindings primary elements := by
  have perm := uniqueRebound rebound
  have bare : listFloor ((uniqueById elements).map AudioElement.bare) = listFloor (uniqueById elements) := by
    unfold listFloor totalChannelCount
    rw [List.foldlM_map, sequenceCountFloorBare, List.length_map]
    rfl
  have floor : sequenceFloor others = sequenceFloor elements := (listFloorPerm perm).trans bare
  unfold sequenceLimitFindings
  simp only [floor, perm.length_eq, List.length_map, sequenceCountFloorPerm perm, sequenceCountFloorBare]

section

variable (set : DescriptorSet) (units : List TemporalUnit)

theorem unitsFilterMap {T : Type} {f : SequenceObu → Option T} (still : ∀ unit : TemporalUnit, ∀ obu ∈ unit.obus, f obu = none) :
    (units.flatMap (·.obus)).filterMap f = [] := by
  rw [List.filterMap_eq_nil_iff]
  intro obu among
  obtain ⟨unit, _, inside⟩ := List.mem_flatMap.mp among
  exact still unit obu inside

theorem unitNoDescriptor (unit : TemporalUnit) (obu : SequenceObu) (among : obu ∈ unit.obus) :
    obu.iaSequenceHeader? = none ∧ obu.codecConfig? = none ∧ obu.audioElement? = none ∧ obu.mixPresentation? = none := by
  simp only [TemporalUnit.obus, List.mem_append, List.mem_map] at among
  rcases among with ⟨_, _, rfl⟩ | ⟨_, _, rfl⟩ | ⟨_, _, rfl⟩ <;> exact ⟨rfl, rfl, rfl, rfl⟩

open SequenceObu

theorem partsFilterMap {T : Type} {f : SequenceObu → Option T} (header : f (ofSequenceHeader set.sequenceHeader) = none)
    (still : ∀ unit : TemporalUnit, ∀ obu ∈ unit.obus, f obu = none) :
    (ParsedSequence.fromParts set units).obus.filterMap f =
      set.sortedConfigs.filterMap (fun config => f (ofCodecConfig config)) ++
        (set.sortedElements.filterMap (fun element => f (ofAudioElement element)) ++
          set.mixPresentations.filterMap fun presentation => f (ofMixPresentation presentation)) := by
  unfold ParsedSequence.fromParts DescriptorSet.obus
  rw [List.filterMap_append, unitsFilterMap units still, List.append_nil, List.filterMap_cons_none header]
  simp only [List.filterMap_append, List.filterMap_map, Function.comp_def]

theorem partsCodecConfigs : (ParsedSequence.fromParts set units).codecConfigs = set.sortedConfigs.map CodecConfig.bare := by
  have parts := partsFilterMap set units (f := codecConfig?) rfl fun unit obu among => (unitNoDescriptor unit obu among).2.1
  refine parts.trans ?_
  simp [codecConfig?, ofCodecConfig, ofAudioElement, ofMixPresentation, CodecConfig.bare]

theorem partsAudioElements : (ParsedSequence.fromParts set units).audioElements = set.sortedElements.map AudioElement.bare := by
  have parts := partsFilterMap set units (f := audioElement?) rfl fun unit obu among => (unitNoDescriptor unit obu among).2.2.1
  refine parts.trans ?_
  simp [audioElement?, ofCodecConfig, ofAudioElement, ofMixPresentation, AudioElement.bare]

theorem partsMixPresentations :
    (ParsedSequence.fromParts set units).mixPresentations = set.mixPresentations.map MixPresentation.bare := by
  have parts := partsFilterMap set units (f := mixPresentation?) rfl fun unit obu among => (unitNoDescriptor unit obu among).2.2.2
  refine parts.trans ?_
  simp [mixPresentation?, ofCodecConfig, ofAudioElement, ofMixPresentation, MixPresentation.bare]

theorem partsRebound : Rebound set.audioElements (ParsedSequence.fromParts set units).audioElements := by
  rw [partsAudioElements]
  exact reboundSorted set.audioElements

theorem partsProfileFindings : (ParsedSequence.fromParts set units).profileFindings =
    complianceFindings set.sequenceHeader.primaryProfile set.sequenceHeader.additionalProfile set.audioElements
      set.mixPresentations ++ sequenceLimitFindings set.sequenceHeader.primaryProfile set.audioElements := by
  have rebound := partsRebound set units
  rw [← complianceRebound rebound, ← limitsRebound rebound, ← partsMixPresentations set units]
  rfl

theorem partsRegistry : (ParsedSequence.fromParts set units).census.registry = .fromDescriptors set := by
  rw [(censusCounts _).registry, ParsedSequence.fromParts, List.foldl_append, observeDescriptors, observeUnits]

theorem partsDuplicates : locations (ParsedSequence.fromParts set units).census.findings =
    ((ParsedSequence.fromParts set units).obus.map fun obu => locations obu.ownFindings).sum +
      locations set.duplicateFindings := by
  have counts := censusCounts (.fromParts set units)
  have configs : (ParsedSequence.fromParts set units).obus.filterMap (·.codecConfig?) = _ := partsCodecConfigs set units
  have elements : (ParsedSequence.fromParts set units).obus.filterMap (·.audioElement?) = _ := partsAudioElements set units
  have presentations : (ParsedSequence.fromParts set units).obus.filterMap (·.mixPresentation?) = _ :=
    partsMixPresentations set units
  have pairs {T : Type} (id : T → UInt32) (items : List T) :
      equalPairs ((sortedById id items).map id) = equalPairs (items.map id) :=
    equalPairsPerm ((sortedPerm id items).map id)
  have configPairs := pairs (·.codecConfigId) set.codecConfigs
  have elementPairs := pairs (·.audioElementId) set.audioElements
  rw [counts.findings, counts.codecIds, counts.elementIds, counts.presentationIds, counts.parameterIds, partsRegistry,
    configs, elements, presentations]
  simp only [DescriptorSet.duplicateFindings, locationsAppend, List.map_map]
  rw [@pairFindingsAt _ "codec_config_id" fun _ _ _ => rfl, @pairFindingsAt _ "audio_element_id" fun _ _ _ => rfl,
    @pairFindingsAt _ "mix_presentation_id" fun _ _ _ => rfl,
    @pairFindingsAt duplicateParameter "parameter_id" fun _ _ _ => rfl, ← configPairs, ← elementPairs]
  simp only [← add_assoc]
  rfl

theorem anyCodecConfig (id : UInt32) : (ParsedSequence.fromParts set units).codecConfigs.any (·.codecConfigId == id) =
    (set.codecConfigById id).isSome := by
  rw [partsCodecConfigs, List.any_map, DescriptorSet.sortedConfigs, (sortedPerm _ set.codecConfigs).any_eq,
    DescriptorSet.codecConfigById, List.isSome_find?]
  rfl

theorem anyAudioElement (id : UInt32) : (ParsedSequence.fromParts set units).audioElements.any (·.audioElementId == id) =
    (elementById set.audioElements id).isSome := by
  rw [← List.isSome_find?]
  change (elementById _ id).isSome = _
  rw [partsRebound, Option.isSome_map]

theorem partsReferences (presentation : MixPresentation) :
    (ParsedSequence.fromParts set units).referenceFindings (ofMixPresentation presentation) =
      presentation.subMixes.flatMap (set.subMixFindings presentation) := by
  have one (subMix : SubMix) : (subMix.elements.head?.bind fun reference =>
      elementById (ParsedSequence.fromParts set units).audioElements reference.audioElementId) =
      (subMix.elements.head?.bind fun reference => elementById set.audioElements reference.audioElementId).map
        AudioElement.bare := by
    cases subMix.elements.head? with
    | none => rfl
    | some reference => exact partsRebound set units reference.audioElementId
  have scalable (subMix : SubMix) (element : Option AudioElement) :
      scalableLayoutFinding presentation.mixPresentationId subMix (element.map AudioElement.bare) =
        scalableLayoutFinding presentation.mixPresentationId subMix element := by
    cases element <;> rfl
  unfold ParsedSequence.referenceFindings ofMixPresentation DescriptorSet.subMixFindings
  simp only [one, scalable, anyAudioElement, Option.not_isSome]
  rfl

theorem partsSum (f : SequenceObu → Multiset Location) : ((ParsedSequence.fromParts set []).obus.map f).sum =
    f (ofSequenceHeader set.sequenceHeader) + ((set.codecConfigs.map fun config => f (ofCodecConfig config)).sum +
      ((set.audioElements.map fun element => f (ofAudioElement element)).sum +
        (set.mixPresentations.map fun presentation => f (ofMixPresentation presentation)).sum)) := by
  have configs := ((sortedPerm (·.codecConfigId) set.codecConfigs).map fun config => f (ofCodecConfig config)).sum_eq
  have elements := ((sortedPerm (·.audioElementId) set.audioElements).map fun element => f (ofAudioElement element)).sum_eq
  rw [← configs, ← elements]
  simp only [ParsedSequence.fromParts, DescriptorSet.obus, List.flatMap_nil, List.append_nil, List.map_cons,
    List.map_append, List.map_map, List.sum_cons, List.sum_append, Function.comp_def]
  rfl

end

theorem validatorsAgree (set : DescriptorSet) :
    locations set.validate = locations (ParsedSequence.fromParts set []).validate := by
  have elements (element : AudioElement) : (ParsedSequence.fromParts set []).referenceFindings (.ofAudioElement element) =
      findingIf (set.codecConfigById element.codecConfigId).isNone (unresolvedCodecConfig element) := by
    change findingIf (!(ParsedSequence.fromParts set []).codecConfigs.any (·.codecConfigId == element.codecConfigId)) _ = _
    rw [anyCodecConfig, Option.not_isSome]
    rfl
  have quiet : (set.codecConfigs.map fun config =>
      locations ((ParsedSequence.fromParts set []).referenceFindings (.ofCodecConfig config))).sum = 0 := by
    rw [show (fun config => locations ((ParsedSequence.fromParts set []).referenceFindings (.ofCodecConfig config))) =
      fun _ => 0 from rfl]
    simp
  have header : (ParsedSequence.fromParts set []).referenceFindings (.ofSequenceHeader set.sequenceHeader) = [] := rfl
  unfold ParsedSequence.validate DescriptorSet.validate
  simp only [locationsAppend, partsDuplicates, locationsFlatMap, partsSum, partsProfileFindings, quiet, header, elements,
    partsReferences, locationsNil, zero_add]
  change _ = locations set.sequenceHeader.validate + ((set.codecConfigs.map fun config => locations config.validate).sum +
    ((set.audioElements.map fun element => locations element.validate).sum +
      (set.mixPresentations.map fun presentation => locations presentation.validate).sum)) + _ + _ + _
  abel

end Iamf.Wire
