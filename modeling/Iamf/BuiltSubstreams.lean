import Iamf.Preflight

/-! The substreams of a built encoder: one codec for all of them, and for each of them one number of
channels, wherever it is used. -/
namespace Iamf.Wire
open Bits BitString TapeCodec

/-- How many channels an element expects of the substream at a position; the coupled ones come first. -/
inductive Carries (element : AudioElement) (position : Nat) : Nat → Prop where
  | coupled {config layer} (kind : element.audioElementType = .channelBased config) (only : config.layers = [layer])
      (inside : position < layer.coupledSubstreamCount.toNat) : Carries element position 2
  | single {config layer} (kind : element.audioElementType = .channelBased config) (only : config.layers = [layer])
      (outside : layer.coupledSubstreamCount.toNat ≤ position) : Carries element position 1
  | ambisonics {config} (kind : element.audioElementType = .sceneBased (.mono config)) : Carries element position 1

theorem topologyCarries {element : AudioElement} (topology : validateElementTopology element = .ok ()) (position : Nat) :
    Carries element position (substreamChannels element position).toNat := by
  unfold validateElementTopology at topology
  unfold substreamChannels
  cases kind : element.audioElementType with
  | reserved =>
    rw [kind] at topology
    cases topology
  | sceneBased config =>
    rw [kind] at topology
    cases config with
    | mono config => exact .ambisonics kind
    | _ => cases topology
  | channelBased config =>
    rw [kind] at topology
    obtain ⟨_, _, single⟩ := exceptBindOk topology
    match only : config.layers with
    | [] =>
      rw [only] at single
      cases single
    | _ :: _ :: _ =>
      rw [only] at single
      cases single
    | [layer] =>
      by_cases inside : position < layer.coupledSubstreamCount.toNat
      · simpa [only, inside] using Carries.coupled kind only inside
      · simpa [only, inside] using Carries.single kind only (Nat.le_of_not_lt inside)

theorem topologyLowered {d : AudioElementDeclaration} (index : Nat)
    (count : d.substreams.length = d.element.audioSubstreamIds.length) :
    validateElementTopology (d.lowered index) = validateElementTopology d.element := by
  simp only [validateElementTopology, AudioElementDeclaration.lowered, handleIds, List.length_map, count]

namespace Built

variable {b : EncoderBuilder} {encoder : Encoder} {manifest : IdManifest}

theorem hasElement (built : Built b encoder manifest) : ∃ d, d ∈ b.audioElements := by
  obtain ⟨d, among⟩ := List.exists_mem_of_ne_nil _ built.checked.templates.presented
  have checked := built.checked.presentations d among
  obtain ⟨subMixes, lowered, findings⟩ := checked.findings
  have same := lowerSubMixReferencesSame lowered
  obtain ⟨subMix, mixes⟩ := List.length_eq_one_iff.mp checked.single
  have count : subMixes.length = 1 := by
    rw [← List.length_map, same, List.length_map]
    exact checked.single
  obtain ⟨mix, rfl⟩ := List.length_eq_one_iff.mp count
  rw [mixes] at same
  have counts : mix.elements.length = subMix.elements.length :=
    anonymousLength (congrArg SubMix.elements (List.head_eq_of_cons_eq same))
  have used : mix.elements ≠ [] := by
    have none := (List.append_eq_nil_iff.mp findings).2
    simp only [List.flatMap_cons, MixPresentation.validateSubMix, SubMix.validate, List.append_eq_nil_iff,
      findingIfNil, List.isEmpty_eq_false_iff] at none
    exact none.1.1.1.1.2
  have sum := checked.count
  rw [mixes, List.map_singleton, List.sum_singleton, ← counts] at sum
  have some' : d.audioElements ≠ [] := by
    intro none
    rw [none] at sum
    exact used (List.length_eq_zero_iff.mp sum)
  obtain ⟨handle, reference⟩ := List.exists_mem_of_ne_nil _ some'
  obtain ⟨element, found⟩ := checked.references handle reference
  exact ⟨element, List.mem_of_getElem? (EncoderBuilder.audioElementOk.mp found).2⟩

theorem oneConfig (built : Built b encoder manifest) : ∃ declared config, b.codecConfigs = [declared] ∧
    config = { declared with codecConfigId := 0 } ∧ encoder.descriptors.codecConfigs = [config] ∧
    ∀ element ∈ encoder.descriptors.audioElements, element.codecConfigId = 0 := by
  obtain ⟨d, among⟩ := built.hasElement
  have known := (built.configKnown among).2
  have inside : 0 < b.codecConfigs.length := Nat.lt_of_le_of_lt (Nat.zero_le _) known
  have single := built.checked.single
  rw [show b.resolved.codecConfigs = b.codecConfigs from rfl] at single
  obtain ⟨declared, configs⟩ := List.length_eq_one_iff.mp (Nat.le_antisymm single inside)
  have length := (lowerEachAt built.lowering.1).1
  rw [configs] at length
  obtain ⟨config, lowered⟩ := List.length_eq_one_iff.mp length
  have here := (built.config (i := 0) (by rw [configs]; rfl)).2
  rw [lowered] at here
  refine ⟨declared, config, configs, Option.some.inj here, lowered, fun element used => ?_⟩
  obtain ⟨i, at'⟩ := List.mem_iff_getElem?.mp used
  obtain ⟨d, from', _⟩ := lowerEachFrom built.lowering.2.1 at'
  cases at'.symm.trans (built.element from').2
  have first : d.codecConfig.index < b.codecConfigs.length := (built.configKnown (List.mem_of_getElem? from')).2
  rw [configs, List.length_singleton, Nat.lt_one_iff] at first
  unfold AudioElementDeclaration.lowered
  rw [first]
  rfl

theorem hasSubstream (built : Built b encoder manifest) : encoder.declaredSubstreams ≠ [] := by
  obtain ⟨d, declared⟩ := built.hasElement
  obtain ⟨i, at'⟩ := List.mem_iff_getElem?.mp declared
  have checked := built.checked.elements d declared
  have used : d.element.audioSubstreamIds ≠ [] := by
    have findings := checked.findings
    simp only [AudioElement.validate, List.append_eq_nil_iff, findingIfNil, List.isEmpty_eq_false_iff] at findings
    exact findings.1.1.1.2
  have some' : (d.lowered i).audioSubstreamIds ≠ [] := by
    intro none
    have count := checked.count
    rw [List.map_eq_nil_iff.mp none] at count
    exact used (List.length_eq_zero_iff.mp count.symm)
  obtain ⟨id, among⟩ := List.exists_mem_of_ne_nil _ some'
  have here : d.lowered i ∈ encoder.descriptors.audioElements := List.mem_of_getElem? (built.element at').2
  rw [encoder.declaredSubstreamsAre]
  exact List.ne_nil_of_mem (List.mem_eraseDups.mpr (List.mem_flatMap.mpr ⟨d.lowered i, here, among⟩))

theorem declaredUse (built : Built b encoder manifest) {element : AudioElement}
    (among : element ∈ encoder.descriptors.audioElements) {position : Nat} {id : UInt32}
    (at' : element.audioSubstreamIds[position]? = some id) : ∃ d ∈ b.audioElements, ∃ i, element = d.lowered i ∧
      d.substreams[position]? = some ⟨b.generation, id.toNat⟩ := by
  obtain ⟨i, here⟩ := List.mem_iff_getElem?.mp among
  obtain ⟨d, from', _⟩ := lowerEachFrom built.lowering.2.1 here
  cases here.symm.trans (built.element from').2
  have declared := List.mem_of_getElem? from'
  refine ⟨d, declared, i, rfl, ?_⟩
  simp only [AudioElementDeclaration.lowered, handleIds, List.getElem?_map, Option.map_eq_some_iff] at at'
  obtain ⟨handle, used, rfl⟩ := at'
  obtain ⟨own, inside⟩ := built.substreamKnown declared (List.mem_of_getElem? used)
  have few := built.manifestIs.2.2.2.1.2
  have small : handle.index ≤ u32Max := by
    change handle.index < b.substreams.length at inside
    omega
  rw [used]
  obtain ⟨generation, index⟩ := handle
  cases own
  rw [countFits small]

theorem sameChannels (built : Built b encoder manifest) {element other : AudioElement}
    (among : element ∈ encoder.descriptors.audioElements) (among' : other ∈ encoder.descriptors.audioElements)
    {position position' : Nat} {id : UInt32} (at' : element.audioSubstreamIds[position]? = some id)
    (at'' : other.audioSubstreamIds[position']? = some id) :
    substreamChannels other position' = substreamChannels element position := by
  obtain ⟨d, declared, i, rfl, used⟩ := built.declaredUse among at'
  obtain ⟨d', declared', i', rfl, used'⟩ := built.declaredUse among' at''
  have checked := (built.checked.elements d declared).substreams _ (List.mk_mem_zipIdx_iff_getElem?.mpr used)
  obtain ⟨_, _, checked⟩ := exceptBindOk checked
  obtain ⟨_, _, checked⟩ := exceptBindOk checked
  have alike := List.all_eq_true.mp (List.all_eq_true.mp (guardedOk.mp checked) d' declared') _
    (List.mk_mem_zipIdx_iff_getElem?.mpr used')
  simp only [bne_self_eq_false, Bool.false_or, Bool.and_eq_true, beq_iff_eq] at alike
  exact alike.2

theorem carries (built : Built b encoder manifest) {element : AudioElement}
    (among : element ∈ encoder.descriptors.audioElements) (position : Nat) :
    Carries element position (substreamChannels element position).toNat := by
  obtain ⟨i, here⟩ := List.mem_iff_getElem?.mp among
  obtain ⟨d, from', _⟩ := lowerEachFrom built.lowering.2.1 here
  cases here.symm.trans (built.element from').2
  have checked := built.checked.elements d (List.mem_of_getElem? from')
  exact topologyCarries ((topologyLowered i checked.count).trans checked.topology) position

end Built

theorem Built.substreamPlan {b : EncoderBuilder} {encoder : Encoder} {manifest : IdManifest}
    (built : Built b encoder manifest) {config : CodecConfig} (configs : encoder.descriptors.codecConfigs = [config])
    {element : AudioElement} (among : element ∈ encoder.descriptors.audioElements) {position : Nat} {id : UInt32}
    (at' : element.audioSubstreamIds[position]? = some id) :
    encoder.substreamPlan id = .ok (config, substreamChannels element position) := by
  obtain ⟨_, config', _, zero, lowered, each⟩ := built.oneConfig
  cases List.head_eq_of_cons_eq (configs.symm.trans lowered)
  have first : ∃ use, encoder.firstUse id = some use := by
    refine Option.isSome_iff_exists.mp (List.findSome?_isSome_iff.mpr ⟨element, among, ?_⟩)
    rw [Option.isSome_map, List.findIdx?_isSome, List.any_eq_true]
    exact ⟨id, List.mem_of_getElem? at', beq_self_eq_true id⟩
  obtain ⟨⟨other, position'⟩, found⟩ := first
  obtain ⟨other', among', here⟩ := List.exists_of_findSome?_eq_some found
  obtain ⟨position'', index, same⟩ := Option.map_eq_some_iff.mp here
  cases same
  have at'' : other.audioSubstreamIds[position']? = some id := by
    obtain ⟨inside, holds, _⟩ := List.findIdx?_eq_some_iff_getElem.mp index
    rw [List.getElem?_eq_getElem inside, beq_iff_eq.mp holds]
  have codec : encoder.descriptors.codecConfigById other.codecConfigId = some config := by
    unfold DescriptorSet.codecConfigById
    rw [configs, each other among', List.find?_cons, zero]
    rfl
  unfold Encoder.substreamPlan
  simp only [found, codec, built.sameChannels among among' at' at'']

theorem Built.declaredConfig {b : EncoderBuilder} {encoder : Encoder} {manifest : IdManifest}
    (built : Built b encoder manifest) {config : CodecConfig} (configs : encoder.descriptors.codecConfigs = [config])
    {id : UInt32} (declared : id ∈ encoder.declaredSubstreams) {config' : CodecConfig} {channels : UInt8}
    (plan : encoder.substreamPlan id = .ok (config', channels)) : config' = config := by
  rw [encoder.declaredSubstreamsAre, List.mem_eraseDups] at declared
  obtain ⟨element, among, used⟩ := List.mem_flatMap.mp declared
  obtain ⟨position, at'⟩ := List.mem_iff_getElem?.mp used
  cases (built.substreamPlan configs among at').symm.trans plan
  rfl

end Iamf.Wire
