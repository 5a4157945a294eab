import Iamf.DescriptorSet
import Iamf.Keyed
import Iamf.Profile
import Mathlib.Algebra.BigOperators.Group.Multiset.Basic
import Mathlib.Data.Multiset.Replicate

/-! The two validators of whole sequences: one walks the OBUs in wire order and remembers the
ids it has met, the other compares the descriptors of a set pair by pair. -/
namespace Iamf.Wire
open Bits TapeCodec

def unresolvedCodecConfig (element : AudioElement) : Finding :=
  .at "codec_config_id" "audio element {} references codec_config_id {}, which no Codec Config in this sequence carries"
    [.number element.audioElementId.toNat, .number element.codecConfigId.toNat]

def unresolvedAudioElement (presentation : MixPresentation) (reference : SubMixAudioElement) : Finding :=
  .at "audio_element_id"
    "mix presentation {} references audio_element_id {}, which no Audio Element in this sequence carries"
    [.number presentation.mixPresentationId.toNat, .number reference.audioElementId.toNat]

def unresolvedParameter (parameterId : UInt32) : Finding :=
  .at "parameter_id" "parameter block references parameter_id {}, which no definition in this sequence carries"
    [.number parameterId.toNat]

def laterDuplicate (field : String) (id : UInt32) (index first : Nat) : Finding :=
  .at field (field ++ " {} appears at OBU indices {} and {}; lookup binds to index {}, the first in wire order")
    [.number id.toNat, .number first, .number index, .number first]

abbrev Seen := List (UInt32 × Nat)

def pushLaterDuplicate (field : String) (index : Nat) (acc : List Finding × Seen) (id : UInt32) :
    List Finding × Seen :=
  (acc.1 ++ (acc.2.filter (·.1 == id)).map fun entry => laterDuplicate field id index entry.2, acc.2 ++ [(id, index)])

structure Census where
  findings : List Finding
  codecIds : Seen
  elementIds : Seen
  presentationIds : Seen
  parameterIds : Seen
  registry : ParamDefinitionRegistry

namespace Census

def new : Census := ⟨[], [], [], [], [], .new⟩

def report (c : Census) (findings : List Finding) : Census := { c with findings := c.findings ++ findings }

def observeParameterDuplicates (c : Census) (index : Nat) (registry : ParamDefinitionRegistry) : Census :=
  let added := (registry.entries.drop c.registry.entries.length).map (·.definition.parameterId)
  let (findings, parameterIds) := added.foldl (pushLaterDuplicate "parameter_id" index) (c.findings, c.parameterIds)
  { c with findings := findings, parameterIds := parameterIds, registry := registry }

def observeCodecConfig (c : Census) (index : Nat) (config : CodecConfig) : Census :=
  let (findings, codecIds) :=
    pushLaterDuplicate "codec_config_id" index (c.findings ++ config.validate, c.codecIds) config.codecConfigId
  { c with findings := findings, codecIds := codecIds }

def observeAudioElement (c : Census) (index : Nat) (element : AudioElement) : Census :=
  let (findings, elementIds) :=
    pushLaterDuplicate "audio_element_id" index (c.findings ++ element.validate, c.elementIds) element.audioElementId
  { c with findings := findings, elementIds := elementIds }.observeParameterDuplicates index
    (c.registry.observeAudioElement element)

def observeMixPresentation (c : Census) (index : Nat) (presentation : MixPresentation) : Census :=
  let (findings, presentationIds) := pushLaterDuplicate "mix_presentation_id" index
    (c.findings ++ presentation.validate, c.presentationIds) presentation.mixPresentationId
  { c with findings := findings, presentationIds := presentationIds }.observeParameterDuplicates index
    (c.registry.observeMixPresentation presentation)

def observe (c : Census) (index : Nat) : SequenceObu → Census
  | .iaSequenceHeader obu => c.report obu.payload.validate
  | .codecConfig obu => c.observeCodecConfig index obu.payload
  | .audioElement obu => c.observeAudioElement index obu.payload
  | .mixPresentation obu => c.observeMixPresentation index obu.payload
  | .parameterBlock obu => c.report obu.payload.validate
  | .audioFrame obu => c.report (obu.payload.validate obu.header.obuType)
  | .ungovernedParameterBlock _ | .temporalDelimiter _ | .unknown _ => c

end Census

namespace SequenceObu

def iaSequenceHeader? : SequenceObu → Option IaSequenceHeader
  | .iaSequenceHeader obu => some obu.payload
  | _ => none

def codecConfig? : SequenceObu → Option CodecConfig
  | .codecConfig obu => some obu.payload
  | _ => none

def audioElement? : SequenceObu → Option AudioElement
  | .audioElement obu => some obu.payload
  | _ => none

def mixPresentation? : SequenceObu → Option MixPresentation
  | .mixPresentation obu => some obu.payload
  | _ => none

end SequenceObu

namespace ParsedSequence

def codecConfigs (s : ParsedSequence) : List CodecConfig := s.obus.filterMap (·.codecConfig?)

def audioElements (s : ParsedSequence) : List AudioElement := s.obus.filterMap (·.audioElement?)

def mixPresentations (s : ParsedSequence) : List MixPresentation := s.obus.filterMap (·.mixPresentation?)

def census (s : ParsedSequence) : Census := s.obus.zipIdx.foldl (fun c entry => c.observe entry.2 entry.1) .new

def referenceFindings (s : ParsedSequence) : SequenceObu → List Finding
  | .audioElement obu =>
    findingIf (!s.codecConfigs.any (·.codecConfigId == obu.payload.codecConfigId)) (unresolvedCodecConfig obu.payload)
  | .mixPresentation obu => obu.payload.subMixes.flatMap fun subMix =>
    (subMix.elements.flatMap fun reference =>
      findingIf (!s.audioElements.any (·.audioElementId == reference.audioElementId))
        (unresolvedAudioElement obu.payload reference)) ++
    (scalableLayoutFinding obu.payload.mixPresentationId subMix
      (subMix.elements.head?.bind fun reference => elementById s.audioElements reference.audioElementId)).toList
  | .parameterBlock obu =>
    findingIf (s.census.registry.get obu.payload.parameterId).isNone (unresolvedParameter obu.payload.parameterId)
  | .ungovernedParameterBlock obu =>
    match readUleb128 (BitCursor.new obu.payload) with
    | .ok parameterId _ => [unresolvedParameter parameterId]
    | .error _ _ => []
  | .audioFrame obu =>
    if s.audioElements.any (·.audioSubstreamIds.contains obu.payload.substreamId) then []
    else obu.payload.validateAgainstElement []
  | .iaSequenceHeader _ | .codecConfig _ | .temporalDelimiter _ | .unknown _ => []

def profileFindings (s : ParsedSequence) : List Finding :=
  match s.obus.findSome? (·.iaSequenceHeader?) with
  | some header =>
    complianceFindings header.primaryProfile header.additionalProfile s.audioElements s.mixPresentations ++
      sequenceLimitFindings header.primaryProfile s.audioElements
  | none => []

def validate (s : ParsedSequence) : List Finding :=
  s.census.findings ++ s.obus.flatMap s.referenceFindings ++ s.profileFindings

end ParsedSequence

def pairFindings (finding : UInt32 → Nat → Nat → Finding) : Nat → List UInt32 → List Finding
  | _, [] => []
  | index, id :: ids =>
    (ids.zipIdx (index + 1)).flatMap (fun other => findingIf (id == other.1) (finding id index other.2)) ++
      pairFindings finding (index + 1) ids

def duplicateId (field : String) (id : UInt32) (index other : Nat) : Finding :=
  .at field (field ++ " {} appears at indices {} and {}; by_id() binds to index {}, the first in bitstream order")
    [.number id.toNat, .number index, .number other, .number index]

def duplicateParameter (id : UInt32) (index other : Nat) : Finding :=
  .at "parameter_id"
    "parameter_id {} appears at nested definition indices {} and {}; lookup binds to index {}, the first in bitstream order"
    [.number id.toNat, .number index, .number other, .number index]

namespace DescriptorSet

def codecConfigById (set : DescriptorSet) (id : UInt32) : Option CodecConfig :=
  set.codecConfigs.find? fun config => config.codecConfigId == id

def duplicateFindings (set : DescriptorSet) : List Finding :=
  pairFindings (duplicateId "codec_config_id") 0 (set.codecConfigs.map (·.codecConfigId)) ++
  pairFindings (duplicateId "audio_element_id") 0 (set.audioElements.map (·.audioElementId)) ++
  pairFindings (duplicateId "mix_presentation_id") 0 (set.mixPresentations.map (·.mixPresentationId)) ++
  pairFindings duplicateParameter 0
    ((ParamDefinitionRegistry.fromDescriptors set).entries.map (·.definition.parameterId))

def subMixFindings (set : DescriptorSet) (presentation : MixPresentation) (subMix : SubMix) : List Finding :=
  (subMix.elements.flatMap fun reference =>
    findingIf (elementById set.audioElements reference.audioElementId).isNone
      (unresolvedAudioElement presentation reference)) ++
  (scalableLayoutFinding presentation.mixPresentationId subMix
    (subMix.elements.head?.bind fun reference => elementById set.audioElements reference.audioElementId)).toList

def validate (set : DescriptorSet) : List Finding :=
  set.sequenceHeader.validate ++ set.codecConfigs.flatMap (·.validate) ++ set.audioElements.flatMap (·.validate) ++
  set.mixPresentations.flatMap (·.validate) ++ set.duplicateFindings ++
  (set.audioElements.flatMap fun element =>
    findingIf (set.codecConfigById element.codecConfigId).isNone (unresolvedCodecConfig element)) ++
  (set.mixPresentations.flatMap fun presentation => presentation.subMixes.flatMap (set.subMixFindings presentation)) ++
  complianceFindings set.sequenceHeader.primaryProfile set.sequenceHeader.additionalProfile set.audioElements
    set.mixPresentations ++
  sequenceLimitFindings set.sequenceHeader.primaryProfile set.audioElements

end DescriptorSet

def locations (findings : List Finding) : Multiset Location := ↑(findings.map (·.location))

@[simp] theorem locationsNil : locations [] = 0 := rfl

@[simp] theorem locationsAppend (xs ys : List Finding) : locations (xs ++ ys) = locations xs + locations ys := by
  simp only [locations, List.map_append, Multiset.coe_add]

theorem locationsFlatMap {T : Type} (f : T → List Finding) (items : List T) :
    locations (items.flatMap f) = (items.map fun item => locations (f item)).sum := by
  induction items with
  | nil => rfl
  | cons item items ih => rw [List.flatMap_cons, locationsAppend, ih, List.map_cons, List.sum_cons]

theorem locationsNone {findings : List Finding} : locations findings = 0 ↔ findings = [] := by
  simp [locations]

def repeated (n : Nat) (field : String) : Multiset Location := Multiset.replicate n (.field field)

theorem repeatedAdd (m n : Nat) (field : String) : repeated (m + n) field = repeated m field + repeated n field :=
  Multiset.replicate_add ..

@[simp] theorem repeatedZero (field : String) : repeated 0 field = 0 := Multiset.replicate_zero _

theorem locationsAt {findings : List Finding} {field : String}
    (each : ∀ finding ∈ findings, finding.location = .field field) :
    locations findings = repeated findings.length field := by
  refine Multiset.eq_replicate.mpr ⟨by simp [locations], fun location among => ?_⟩
  obtain ⟨finding, inside, rfl⟩ := List.mem_map.mp (Multiset.mem_coe.mp among)
  exact each finding inside

open Keyed

theorem pushOneSeen (field : String) (index : Nat) (acc : List Finding × Seen) (id : UInt32) :
    (pushLaterDuplicate field index acc id).2.map Prod.fst = acc.2.map Prod.fst ++ [id] := by
  simp [pushLaterDuplicate]

theorem pushOneFound (field : String) (index : Nat) (acc : List Finding × Seen) (id : UInt32) :
    locations (pushLaterDuplicate field index acc id).1 =
      locations acc.1 + repeated ((acc.2.map Prod.fst).count id) field := by
  have duplicates : locations ((acc.2.filter (·.1 == id)).map fun entry => laterDuplicate field id index entry.2) =
      repeated (acc.2.filter (·.1 == id)).length field := by
    rw [locationsAt, List.length_map]
    intro finding among
    obtain ⟨entry, _, rfl⟩ := List.mem_map.mp among
    rfl
  rw [pushLaterDuplicate, locationsAppend, duplicates, List.count, List.countP_map, List.countP_eq_length_filter]
  rfl

theorem pushLaterDuplicateSpec (field : String) (index : Nat) (acc : List Finding × Seen) (ids : List UInt32) :
    ∃ n, locations (ids.foldl (pushLaterDuplicate field index) acc).1 = locations acc.1 + repeated n field ∧
      (ids.foldl (pushLaterDuplicate field index) acc).2.map Prod.fst = acc.2.map Prod.fst ++ ids ∧
      equalPairs (acc.2.map Prod.fst ++ ids) = equalPairs (acc.2.map Prod.fst) + n := by
  induction ids generalizing acc with
  | nil => exact ⟨0, by simp, by simp, by simp⟩
  | cons id ids ih =>
    obtain ⟨n, found, seen, pairs⟩ := ih (pushLaterDuplicate field index acc id)
    rw [pushOneSeen, List.append_assoc] at seen
    rw [pushOneSeen, equalPairsSnoc, List.append_assoc] at pairs
    refine ⟨(acc.2.map Prod.fst).count id + n, ?_, seen, by rw [← Nat.add_assoc]; exact pairs⟩
    rw [List.foldl_cons, found, pushOneFound, add_assoc, repeatedAdd]

theorem observeParamAppends (present : List Bool) (params : List AudioElementParam) : ∃ added, ∀ registry,
    (params.foldl (ParamDefinitionRegistry.observeParam present) registry).entries = registry.entries ++ added := by
  induction params with
  | nil => exact ⟨[], fun _ => (List.append_nil _).symm⟩
  | cons param params ih =>
    obtain ⟨added, more⟩ := ih
    cases param with
    | demixing definition mode r w wr =>
      exact ⟨_ :: added, fun _ => by rw [List.foldl_cons, more]; exact List.append_assoc ..⟩
    | reconGain definition => exact ⟨_ :: added, fun _ => by rw [List.foldl_cons, more]; exact List.append_assoc ..⟩
    | extension type bytes => exact ⟨added, fun _ => more _⟩

theorem observeGainsAppends (elements : List SubMixAudioElement) (registry : ParamDefinitionRegistry) :
    (elements.foldl (fun r element => r.register element.elementMixGain.definition .mixGain) registry).entries =
      registry.entries ++ elements.map fun element => ⟨element.elementMixGain.definition, .mixGain⟩ := by
  induction elements generalizing registry with
  | nil => exact (List.append_nil _).symm
  | cons element elements ih =>
    rw [List.foldl_cons, ih]
    exact List.append_assoc ..

def MixPresentation.gains (presentation : MixPresentation) : List MixGainParamDefinition :=
  presentation.subMixes.flatMap fun subMix => subMix.elements.map (·.elementMixGain) ++ [subMix.outputMixGain]

def gainEntry (gain : MixGainParamDefinition) : RegisteredParamDefinition := ⟨gain.definition, .mixGain⟩

theorem observeMixAppends (presentation : MixPresentation) (registry : ParamDefinitionRegistry) :
    (registry.observeMixPresentation presentation).entries = registry.entries ++ presentation.gains.map gainEntry := by
  unfold ParamDefinitionRegistry.observeMixPresentation MixPresentation.gains
  induction presentation.subMixes generalizing registry with
  | nil => exact (List.append_nil _).symm
  | cons subMix subMixes ih =>
    rw [List.foldl_cons, ih, ParamDefinitionRegistry.observeSubMix, ParamDefinitionRegistry.register, observeGainsAppends]
    simp [gainEntry]

theorem observeAppends (obu : SequenceObu) :
    ∃ added, ∀ registry : ParamDefinitionRegistry, (registry.observeObu obu).entries = registry.entries ++ added := by
  cases obu with
  | audioElement obu => exact observeParamAppends ..
  | mixPresentation obu => exact ⟨_, fun registry => observeMixAppends obu.payload registry⟩
  | _ => exact ⟨[], fun _ => (List.append_nil _).symm⟩

def SequenceObu.ownFindings : SequenceObu → List Finding
  | .iaSequenceHeader obu => obu.payload.validate
  | .codecConfig obu => obu.payload.validate
  | .audioElement obu => obu.payload.validate
  | .mixPresentation obu => obu.payload.validate
  | .parameterBlock obu => obu.payload.validate
  | .audioFrame obu => obu.payload.validate obu.header.obuType
  | _ => []

def ParamDefinitionRegistry.ids (registry : ParamDefinitionRegistry) : List UInt32 :=
  registry.entries.map (·.definition.parameterId)

structure Census.Counts (obus : List SequenceObu) (c : Census) : Prop where
  codecIds : c.codecIds.map Prod.fst = (obus.filterMap (·.codecConfig?)).map (·.codecConfigId)
  elementIds : c.elementIds.map Prod.fst = (obus.filterMap (·.audioElement?)).map (·.audioElementId)
  presentationIds : c.presentationIds.map Prod.fst = (obus.filterMap (·.mixPresentation?)).map (·.mixPresentationId)
  registry : c.registry = obus.foldl ParamDefinitionRegistry.observeObu .new
  parameterIds : c.parameterIds.map Prod.fst = c.registry.ids
  findings : locations c.findings = (obus.map fun obu => locations obu.ownFindings).sum +
    repeated (equalPairs (c.codecIds.map Prod.fst)) "codec_config_id" +
    repeated (equalPairs (c.elementIds.map Prod.fst)) "audio_element_id" +
    repeated (equalPairs (c.presentationIds.map Prod.fst)) "mix_presentation_id" +
    repeated (equalPairs (c.parameterIds.map Prod.fst)) "parameter_id"

namespace Census

theorem parameterDuplicatesSpec {c : Census} (known : c.parameterIds.map Prod.fst = c.registry.ids) (index : Nat)
    {registry : ParamDefinitionRegistry} {added : List RegisteredParamDefinition}
    (more : registry.entries = c.registry.entries ++ added) :
    ∃ n, locations (c.observeParameterDuplicates index registry).findings =
        locations c.findings + repeated n "parameter_id" ∧
      (c.observeParameterDuplicates index registry).parameterIds.map Prod.fst = registry.ids ∧
      equalPairs registry.ids = equalPairs (c.parameterIds.map Prod.fst) + n := by
  obtain ⟨n, found, seen, pairs⟩ := pushLaterDuplicateSpec "parameter_id" index (c.findings, c.parameterIds)
    ((registry.entries.drop c.registry.entries.length).map (·.definition.parameterId))
  have whole : c.parameterIds.map Prod.fst ++
      (registry.entries.drop c.registry.entries.length).map (·.definition.parameterId) = registry.ids := by
    rw [known, more, List.drop_left]
    simp only [ParamDefinitionRegistry.ids, more, List.map_append]
  rw [whole] at seen pairs
  exact ⟨n, found, seen, pairs⟩

theorem countsReport {obus : List SequenceObu} {c : Census} (counts : Counts obus c) {obu : SequenceObu}
    (plain : obu.codecConfig? = none ∧ obu.audioElement? = none ∧ obu.mixPresentation? = none) :
    Counts (obus ++ [obu]) (c.report obu.ownFindings) where
  codecIds := by simp [report, counts.codecIds, plain.1]
  elementIds := by simp [report, counts.elementIds, plain.2.1]
  presentationIds := by simp [report, counts.presentationIds, plain.2.2]
  registry := by
    rw [List.foldl_append, ← counts.registry]
    cases obu with
    | audioElement obu => cases plain.2.1
    | mixPresentation obu => cases plain.2.2
    | _ => rfl
  parameterIds := counts.parameterIds
  findings := by
    simp only [report, locationsAppend, counts.findings, List.map_append, List.sum_append, List.map_cons, List.map_nil,
      List.sum_cons, List.sum_nil, add_zero]
    abel

theorem countsCodecConfig {obus : List SequenceObu} {c : Census} (counts : Counts obus c) (index : Nat)
    (obu : Obu CodecConfig) : Counts (obus ++ [.codecConfig obu]) (c.observeCodecConfig index obu.payload) where
  codecIds := by
    simp only [observeCodecConfig, pushOneSeen, counts.codecIds]
    simp [SequenceObu.codecConfig?]
  elementIds := by simp [observeCodecConfig, counts.elementIds, SequenceObu.audioElement?]
  presentationIds := by simp [observeCodecConfig, counts.presentationIds, SequenceObu.mixPresentation?]
  registry := by
    rw [List.foldl_append, ← counts.registry]
    rfl
  parameterIds := counts.parameterIds
  findings := by
    simp only [observeCodecConfig, pushOneFound, pushOneSeen, equalPairsSnoc, repeatedAdd, locationsAppend,
      counts.findings, List.map_append, List.sum_append, List.map_cons, List.map_nil, List.sum_cons, List.sum_nil,
      add_zero, SequenceObu.ownFindings]
    abel

theorem countsAudioElement {obus : List SequenceObu} {c : Census} (counts : Counts obus c) (index : Nat)
    (obu : Obu AudioElement) : Counts (obus ++ [.audioElement obu]) (c.observeAudioElement index obu.payload) := by
  obtain ⟨added, more⟩ := observeAppends (.audioElement obu)
  obtain ⟨n, found, seen, pairs⟩ := parameterDuplicatesSpec
    (c := { c with
      findings := (pushLaterDuplicate "audio_element_id" index (c.findings ++ obu.payload.validate, c.elementIds)
        obu.payload.audioElementId).1
      elementIds := (pushLaterDuplicate "audio_element_id" index (c.findings ++ obu.payload.validate, c.elementIds)
        obu.payload.audioElementId).2 }) counts.parameterIds index (more c.registry)
  refine ⟨?_, ?_, ?_, ?_, seen, ?_⟩
  · simp [observeAudioElement, observeParameterDuplicates, counts.codecIds, SequenceObu.codecConfig?]
  · simp only [observeAudioElement, observeParameterDuplicates, pushOneSeen, counts.elementIds]
    simp [SequenceObu.audioElement?]
  · simp [observeAudioElement, observeParameterDuplicates, counts.presentationIds, SequenceObu.mixPresentation?]
  · rw [List.foldl_append, ← counts.registry]
    rfl
  · refine found.trans ?_
    rw [show (c.observeAudioElement index obu.payload).parameterIds.map Prod.fst = _ from seen, pairs]
    simp only [observeAudioElement, observeParameterDuplicates, pushOneFound, pushOneSeen, equalPairsSnoc, repeatedAdd,
      locationsAppend, counts.findings, List.map_append, List.sum_append, List.map_cons, List.map_nil, List.sum_cons,
      List.sum_nil, add_zero, SequenceObu.ownFindings]
    abel

theorem countsMixPresentation {obus : List SequenceObu} {c : Census} (counts : Counts obus c) (index : Nat)
    (obu : Obu MixPresentation) :
    Counts (obus ++ [.mixPresentation obu]) (c.observeMixPresentation index obu.payload) := by
  obtain ⟨added, more⟩ := observeAppends (.mixPresentation obu)
  obtain ⟨n, found, seen, pairs⟩ := parameterDuplicatesSpec
    (c := { c with
      findings := (pushLaterDuplicate "mix_presentation_id" index (c.findings ++ obu.payload.validate, c.presentationIds)
        obu.payload.mixPresentationId).1
      presentationIds := (pushLaterDuplicate "mix_presentation_id" index
        (c.findings ++ obu.payload.validate, c.presentationIds) obu.payload.mixPresentationId).2 })
    counts.parameterIds index (more c.registry)
  refine ⟨?_, ?_, ?_, ?_, seen, ?_⟩
  · simp [observeMixPresentation, observeParameterDuplicates, counts.codecIds, SequenceObu.codecConfig?]
  · simp [observeMixPresentation, observeParameterDuplicates, counts.elementIds, SequenceObu.audioElement?]
  · simp only [observeMixPresentation, observeParameterDuplicates, pushOneSeen, counts.presentationIds]
    simp [SequenceObu.mixPresentation?]
  · rw [List.foldl_append, ← counts.registry]
    rfl
  · refine found.trans ?_
    rw [show (c.observeMixPresentation index obu.payload).parameterIds.map Prod.fst = _ from seen, pairs]
    simp only [observeMixPresentation, observeParameterDuplicates, pushOneFound, pushOneSeen, equalPairsSnoc,
      repeatedAdd, locationsAppend, counts.findings, List.map_append, List.sum_append, List.map_cons, List.map_nil,
      List.sum_cons, List.sum_nil, add_zero, SequenceObu.ownFindings]
    abel

theorem countsObserve {obus : List SequenceObu} {c : Census} (counts : Counts obus c) (index : Nat) (obu : SequenceObu) :
    Counts (obus ++ [obu]) (c.observe index obu) := by
  have quiet (silent : obu.ownFindings = [])
      (plain : obu.codecConfig? = none ∧ obu.audioElement? = none ∧ obu.mixPresentation? = none) :
      Counts (obus ++ [obu]) c := by
    have same : c.report obu.ownFindings = c := by
      rw [silent, report, List.append_nil]
    rw [← same]
    exact countsReport counts plain
  cases obu with
  | codecConfig obu => exact countsCodecConfig counts index obu
  | audioElement obu => exact countsAudioElement counts index obu
  | mixPresentation obu => exact countsMixPresentation counts index obu
  | iaSequenceHeader obu => exact countsReport counts ⟨rfl, rfl, rfl⟩
  | parameterBlock obu => exact countsReport counts ⟨rfl, rfl, rfl⟩
  | audioFrame obu => exact countsReport counts ⟨rfl, rfl, rfl⟩
  | ungovernedParameterBlock obu => exact quiet rfl ⟨rfl, rfl, rfl⟩
  | temporalDelimiter obu => exact quiet rfl ⟨rfl, rfl, rfl⟩
  | unknown obu => exact quiet rfl ⟨rfl, rfl, rfl⟩

end Census

theorem censusCounts (s : ParsedSequence) : Census.Counts s.obus s.census := by
  unfold ParsedSequence.census
  induction s.obus using List.reverseRecOn with
  | nil => exact ⟨rfl, rfl, rfl, rfl, rfl, rfl⟩
  | append_singleton obus obu ih =>
    rw [List.zipIdx_append, List.foldl_append]
    exact Census.countsObserve ih _ obu

theorem zipMatches (id : UInt32) (ids : List UInt32) (index : Nat) :
    ((ids.zipIdx index).filter fun other => id == other.1).length = ids.count id := by
  induction ids generalizing index with
  | nil => rfl
  | cons other ids ih =>
    rw [List.zipIdx_cons, List.filter_cons, List.count_cons]
    by_cases same : id = other
    · subst same
      simp [ih]
    · simp [same, Ne.symm same, ih]

theorem pairFindingsAt {finding : UInt32 → Nat → Nat → Finding} {field : String}
    (at' : ∀ id index other, (finding id index other).location = .field field) (index : Nat) (ids : List UInt32) :
    locations (pairFindings finding index ids) = repeated (equalPairs ids) field := by
  induction ids generalizing index with
  | nil => rfl
  | cons id ids ih =>
    have inner (others : List (UInt32 × Nat)) :
        locations (others.flatMap fun other => findingIf (id == other.1) (finding id index other.2)) =
          repeated (others.filter fun other => id == other.1).length field := by
      induction others with
      | nil => rfl
      | cons other others ih =>
        rw [List.flatMap_cons, locationsAppend, ih, List.filter_cons]
        cases id == other.1 with
        | false => exact zero_add _
        | true =>
          rw [findingIf, if_pos rfl, if_pos rfl, List.length_cons, Nat.add_comm, repeatedAdd]
          congr 1
          exact locationsAt (by simp [at'])
    rw [pairFindings, locationsAppend, inner, zipMatches, ih, equalPairs, repeatedAdd]

end Iamf.Wire
