import Iamf.BuiltEncoder
import Mathlib.Data.List.Perm.Subperm

/-! Handles and ids: what a builder issued, what the manifest says about it, and what stands in
the descriptors. -/
namespace Iamf.Wire
open Bits BitString TapeCodec

namespace EncoderBuilder

def count (b : EncoderBuilder) : HandleKind → Nat
  | .codecConfig => b.codecConfigs.length
  | .audioElement => b.audioElements.length
  | .mixPresentation => b.mixPresentations.length
  | .substream => b.substreams.length
  | .parameter => b.parameters.length

def Issued (b : EncoderBuilder) {kind : HandleKind} (handle : Handle kind) : Prop :=
  handle.generation = b.generation ∧ handle.index < b.count kind

def Grows {T : Type} (call : Declare T) : Prop :=
  ∀ b, (call b).2.generation = b.generation ∧ ∀ kind, b.count kind ≤ (call b).2.count kind

theorem growsIssued {T : Type} {call : Declare T} (grows : Grows call) {b : EncoderBuilder} {kind : HandleKind}
    {handle : Handle kind} (issued : b.Issued handle) : (call b).2.Issued handle :=
  ⟨issued.1.trans (grows b).1.symm, Nat.lt_of_lt_of_le issued.2 ((grows b).2 kind)⟩

theorem growsBind {T U : Type} {call : Declare T} {next : T → Declare U} (first : Grows call)
    (second : ∀ v, Grows (next v)) : Grows (call >>= next) := by
  intro b
  have before := first b
  have behind := second (call b).1 (call b).2
  exact ⟨behind.1.trans before.1, fun kind => Nat.le_trans (before.2 kind) (behind.2 kind)⟩

theorem growsEach {T U : Type} {call : T → Declare U} (each : ∀ v, Grows (call v)) (items : List T) :
    Grows (items.mapM call) := by
  induction items with
  | nil => exact fun b => ⟨rfl, fun kind => Nat.le_refl _⟩
  | cons item items ih =>
    rw [List.mapM_cons]
    refine growsBind (each item) fun v => growsBind ih fun vs => ?_
    exact fun b => ⟨rfl, fun kind => Nat.le_refl _⟩

structure Issues {kind : HandleKind} (call : Declare (Handle kind)) : Prop where
  grows : Grows call
  issued : ∀ b, (call b).2.Issued (call b).1
  fresh : ∀ b : EncoderBuilder, ¬ b.Issued (call b).1

theorem issuesBind {T : Type} {kind : HandleKind} {call : Declare T} {next : T → Declare (Handle kind)}
    (first : Grows call) (second : ∀ v, Issues (next v)) : Issues (call >>= next) :=
  ⟨growsBind first fun v => (second v).grows, fun b => (second (call b).1).issued (call b).2,
    fun b known => (second (call b).1).fresh (call b).2 (growsIssued first known)⟩

theorem issuesAppend {kind : HandleKind} {call : Declare (Handle kind)}
    (handle : ∀ b, (call b).1 = ⟨b.generation, b.count kind⟩) (own : ∀ b, (call b).2.generation = b.generation)
    (counts : ∀ b other, (call b).2.count other = b.count other + if other = kind then 1 else 0) : Issues call where
  grows b := ⟨own b, fun other => by rw [counts b other]; omega⟩
  issued b := by
    rw [handle b]
    refine ⟨(own b).symm, ?_⟩
    rw [counts b kind, if_pos rfl]
    exact Nat.lt_succ_self _
  fresh b known := by
    rw [handle b] at known
    exact Nat.lt_irrefl _ known.2

theorem addCodecConfigIssues (config : CodecConfig) : Issues (addCodecConfig config) :=
  issuesAppend (fun _ => rfl) (fun _ => rfl) fun b other => by cases other <;> first | rfl | exact List.length_append

theorem declareSubstreamIssues (implicitId : Option UInt32) : Issues (declareSubstream implicitId) :=
  issuesAppend (fun _ => rfl) (fun _ => rfl) fun b other => by cases other <;> first | rfl | exact List.length_append

theorem declareParameterIssues (implicitId : Option UInt32) (gain : MixGainParamDefinition) :
    Issues (declareParameter implicitId gain) :=
  issuesAppend (fun _ => rfl) (fun _ => rfl) fun b other => by cases other <;> first | rfl | exact List.length_append

theorem withSubstreamsIssues (codecConfig : CodecConfigHandle) (substreams : List SubstreamHandle)
    (element : AudioElement) : Issues (addAudioElementWithSubstreams codecConfig substreams element) :=
  issuesAppend (fun _ => rfl) (fun _ => rfl) fun b other => by cases other <;> first | rfl | exact List.length_append

theorem addAudioElementIssues (codecConfig : CodecConfigHandle) (element : AudioElement) :
    Issues (addAudioElement codecConfig element) :=
  issuesBind (growsEach (fun id => (declareSubstreamIssues (some id)).grows) _) fun substreams =>
    withSubstreamsIssues codecConfig substreams element

theorem withParametersIssues (audioElements : List AudioElementHandle) (parameters : List ParameterHandle)
    (presentation : MixPresentation) : Issues (addMixPresentationWithParameters audioElements parameters presentation) :=
  issuesAppend (fun _ => rfl) (fun _ => rfl) fun b other => by cases other <;> first | rfl | exact List.length_append

theorem addMixPresentationIssues (audioElements : List AudioElementHandle) (presentation : MixPresentation) :
    Issues (addMixPresentation audioElements presentation) :=
  issuesBind (growsEach (fun gain => (declareParameterIssues _ gain).grows) _) fun parameters =>
    withParametersIssues audioElements parameters presentation

end EncoderBuilder

inductive DeclareCall where
  | codecConfig (config : CodecConfig)
  | substream
  | audioElement (codecConfig : CodecConfigHandle) (element : AudioElement)
  | audioElementWithSubstreams (codecConfig : CodecConfigHandle) (substreams : List SubstreamHandle)
      (element : AudioElement)
  | ambisonicsMono (codecConfig : CodecConfigHandle) (substreams : List SubstreamHandle) (config : AmbisonicsMonoConfig)
  | mixGainParameter (gain : MixGainParamDefinition)
  | mixPresentation (audioElements : List AudioElementHandle) (presentation : MixPresentation)
  | mixPresentationWithParameters (audioElements : List AudioElementHandle) (parameters : List ParameterHandle)
      (presentation : MixPresentation)

namespace DeclareCall

def kind : DeclareCall → HandleKind
  | .codecConfig _ => .codecConfig
  | .substream => .substream
  | .audioElement .. | .audioElementWithSubstreams .. | .ambisonicsMono .. => .audioElement
  | .mixGainParameter _ => .parameter
  | .mixPresentation .. | .mixPresentationWithParameters .. => .mixPresentation

def declare : (call : DeclareCall) → EncoderBuilder.Declare (Handle call.kind)
  | .codecConfig config => EncoderBuilder.addCodecConfig config
  | .substream => EncoderBuilder.addSubstream
  | .audioElement codec element => EncoderBuilder.addAudioElement codec element
  | .audioElementWithSubstreams codec substreams element =>
    EncoderBuilder.addAudioElementWithSubstreams codec substreams element
  | .ambisonicsMono codec substreams config => EncoderBuilder.addAmbisonicsMono codec substreams config
  | .mixGainParameter gain => EncoderBuilder.addMixGainParameter gain
  | .mixPresentation audioElements presentation => EncoderBuilder.addMixPresentation audioElements presentation
  | .mixPresentationWithParameters audioElements parameters presentation =>
    EncoderBuilder.addMixPresentationWithParameters audioElements parameters presentation

theorem declareIssues (call : DeclareCall) : EncoderBuilder.Issues call.declare := by
  cases call with
  | codecConfig config => exact EncoderBuilder.addCodecConfigIssues config
  | substream => exact EncoderBuilder.declareSubstreamIssues none
  | audioElement codec element => exact EncoderBuilder.addAudioElementIssues codec element
  | audioElementWithSubstreams codec substreams element =>
    exact EncoderBuilder.withSubstreamsIssues codec substreams element
  | ambisonicsMono codec substreams config => exact EncoderBuilder.withSubstreamsIssues codec substreams _
  | mixGainParameter gain => exact EncoderBuilder.declareParameterIssues none gain
  | mixPresentation audioElements presentation =>
    exact EncoderBuilder.addMixPresentationIssues audioElements presentation
  | mixPresentationWithParameters audioElements parameters presentation =>
    exact EncoderBuilder.withParametersIssues audioElements parameters presentation

end DeclareCall

abbrev Returned := (kind : HandleKind) × Handle kind

def declareAll : List DeclareCall → EncoderBuilder.Declare (List Returned)
  | [] => pure []
  | call :: calls => do
    let handle ← call.declare
    let others ← declareAll calls
    pure (⟨call.kind, handle⟩ :: others)

theorem declareAllIssues (calls : List DeclareCall) : EncoderBuilder.Grows (declareAll calls) ∧ ∀ b,
    (∀ handle ∈ (declareAll calls b).1, (declareAll calls b).2.Issued handle.2 ∧ ¬ b.Issued handle.2) ∧
      (declareAll calls b).1.Nodup := by
  induction calls with
  | nil => exact ⟨fun b => ⟨rfl, fun kind => Nat.le_refl _⟩, fun b => ⟨nofun, .nil⟩⟩
  | cons call calls ih =>
    obtain ⟨later, each⟩ := ih
    have one := call.declareIssues
    have grows : EncoderBuilder.Grows (declareAll (call :: calls)) := EncoderBuilder.growsBind one.grows fun handle =>
      EncoderBuilder.growsBind later fun others b => ⟨rfl, fun kind => Nat.le_refl _⟩
    refine ⟨grows, fun b => ?_⟩
    obtain ⟨issued, apart⟩ := each (call.declare b).2
    change (∀ handle ∈ (⟨call.kind, (call.declare b).1⟩ : Returned) :: (declareAll calls (call.declare b).2).1,
      (declareAll calls (call.declare b).2).2.Issued handle.2 ∧ ¬ b.Issued handle.2) ∧
        ((⟨call.kind, (call.declare b).1⟩ : Returned) :: (declareAll calls (call.declare b).2).1).Nodup
    rw [List.forall_mem_cons, List.nodup_cons]
    refine ⟨⟨⟨EncoderBuilder.growsIssued later (one.issued b), one.fresh b⟩, fun handle among => ?_⟩, fun again => ?_, apart⟩
    · exact (issued handle among).imp id fun unknown known => unknown (EncoderBuilder.growsIssued one.grows known)
    · exact (issued _ again).2 (one.issued b)

def Positional {T : Type} (id : T → UInt32) (items : List T) : Prop :=
  ∀ i item, items[i]? = some item → i ≤ u32Max ∧ id item = UInt32.ofNat i

theorem positionInjective {i j : Nat} (small : i ≤ u32Max) (small' : j ≤ u32Max)
    (same : UInt32.ofNat i = UInt32.ofNat j) : i = j :=
  (wireIdInjective (wireIdOf small) (wireIdOf small')).mp same

theorem positionalNodup {T : Type} {id : T → UInt32} {items : List T} (positional : Positional id items) :
    (items.map id).Nodup := by
  refine List.pairwise_iff_getElem.mpr fun i j inside inside' before same => ?_
  rw [List.length_map] at inside inside'
  rw [List.getElem_map, List.getElem_map] at same
  obtain ⟨small, first⟩ := positional i _ (List.getElem?_eq_getElem inside)
  obtain ⟨small', second⟩ := positional j _ (List.getElem?_eq_getElem inside')
  rw [first, second] at same
  exact absurd (positionInjective small small' same) (Nat.ne_of_lt before)

theorem positionalFind {T : Type} {id : T → UInt32} {items : List T} (positional : Positional id items) {i : Nat}
    {item : T} (at' : items[i]? = some item) : items.find? (fun other => id other == id item) = some item := by
  obtain ⟨inside, rfl⟩ := List.getElem?_eq_some_iff.mp at'
  refine List.find?_eq_some_iff_getElem.mpr ⟨beq_self_eq_true _, i, inside, rfl, fun j before => ?_⟩
  rw [Bool.not_eq_true', beq_eq_false_iff_ne]
  intro same
  obtain ⟨small, first⟩ := positional i _ at'
  obtain ⟨small', second⟩ := positional j _ (List.getElem?_eq_getElem (Nat.lt_trans before inside))
  rw [first, second] at same
  exact absurd (positionInjective small' small same) (Nat.ne_of_lt before)

section

variable (b : EncoderBuilder) (set : DescriptorSet) (manifest : IdManifest)

structure ConfigIds (i : Nat) (declared : CodecConfig) (config : CodecConfig) : Prop where
  at' : set.codecConfigs[i]? = some config
  template : config.anonymous = declared.anonymous
  id : manifest.codecConfigId ⟨b.generation, i⟩ = some config.codecConfigId
  found : set.codecConfigById config.codecConfigId = some config

structure ElementIds (i : Nat) (declaration : AudioElementDeclaration) (element : AudioElement) : Prop where
  at' : set.audioElements[i]? = some element
  template : element.anonymous = declaration.element.anonymous
  id : manifest.audioElementId ⟨b.generation, i⟩ = some element.audioElementId
  found : elementById set.audioElements element.audioElementId = some element
  codecConfigId : manifest.codecConfigId declaration.codecConfig = some element.codecConfigId
  codecConfig : ∃ declared config, b.codecConfigs[declaration.codecConfig.index]? = some declared ∧
    ConfigIds b set manifest declaration.codecConfig.index declared config ∧ config.codecConfigId = element.codecConfigId
  substreams : manifest.substreams ⟨b.generation, i⟩ = some declaration.substreams
  substreamIds : element.audioSubstreamIds.map some = declaration.substreams.map manifest.substreamId

structure PresentationIds (i : Nat) (declaration : MixPresentationDeclaration) (presentation : MixPresentation) :
    Prop where
  at' : set.mixPresentations[i]? = some presentation
  template : presentation.anonymous = (b.resolvedPresentation declaration).presentation.anonymous
  id : manifest.mixPresentationId ⟨b.generation, i⟩ = some presentation.mixPresentationId
  references : presentation.references.map some = declaration.audioElements.map manifest.audioElementId
  resolve : ∀ handle ∈ declaration.audioElements, ∃ declared element, b.audioElements[handle.index]? = some declared ∧
    ElementIds b set manifest handle.index declared element ∧ manifest.audioElementId handle = some element.audioElementId
  parameters : manifest.parameters ⟨b.generation, i⟩ = some declaration.parameters
  parameterIds : (gainIds presentation.gains).map some = declaration.parameters.map manifest.parameterId

/-- Every handle was issued by the builder, every id is the manifest's, and every reference
leads to the declaration its handle names. -/
structure IdsSound : Prop where
  elementHandles : ∀ d ∈ b.audioElements, b.Issued d.codecConfig ∧ ∀ handle ∈ d.substreams, b.Issued handle
  presentationHandles : ∀ d ∈ b.mixPresentations,
    (∀ handle ∈ d.audioElements, b.Issued handle) ∧ ∀ handle ∈ d.parameters, b.Issued handle
  lengths : set.codecConfigs.length = b.codecConfigs.length ∧ set.audioElements.length = b.audioElements.length ∧
    set.mixPresentations.length = b.mixPresentations.length
  configs : ∀ i declared, b.codecConfigs[i]? = some declared → ∃ config, ConfigIds b set manifest i declared config
  elements : ∀ i d, b.audioElements[i]? = some d → ∃ element, ElementIds b set manifest i d element
  presentations : ∀ i d, b.mixPresentations[i]? = some d → ∃ presentation, PresentationIds b set manifest i d presentation
  distinctConfigs : (set.codecConfigs.map (·.codecConfigId)).Nodup
  distinctElements : (set.audioElements.map (·.audioElementId)).Nodup
  distinctPresentations : (set.mixPresentations.map (·.mixPresentationId)).Nodup
  distinctParameters : (gainIds (set.mixPresentations.flatMap (·.gains))).Nodup
  usedSubstreams : ∀ i < b.substreams.length, ∃ d ∈ b.audioElements, ⟨b.generation, i⟩ ∈ d.substreams
  usedParameters : ∀ i < b.parameters.length, ∃ d ∈ b.mixPresentations, ⟨b.generation, i⟩ ∈ d.parameters

end

namespace Built

variable {b : EncoderBuilder} {encoder : Encoder} {manifest : IdManifest}

theorem manifestIs (built : Built b encoder manifest) :
    (manifest.codecConfigs = issuedIds .codecConfig b.generation b.codecConfigs.length ∧
      b.codecConfigs.length ≤ u32Max + 1) ∧
    (manifest.audioElements = issuedIds .audioElement b.generation b.audioElements.length ∧
      b.audioElements.length ≤ u32Max + 1) ∧
    (manifest.mixPresentations = issuedIds .mixPresentation b.generation b.mixPresentations.length ∧
      b.mixPresentations.length ≤ u32Max + 1) ∧
    (manifest.substreamIds = issuedIds .substream b.generation b.substreams.length ∧
      b.substreams.length ≤ u32Max + 1) ∧
    (manifest.parameterIds = issuedIds .parameter b.generation b.parameters.length ∧
      b.parameters.length ≤ u32Max + 1) ∧
    manifest.elementSubstreams = (b.audioElements.zipIdx.map fun (declaration, index) =>
      (⟨b.generation, index⟩, declaration.substreams)) ∧
    manifest.presentationParameters = b.resolved.mixPresentations.zipIdx.map fun (declaration, index) =>
      (⟨b.generation, index⟩, declaration.parameters) := by
  have allocated := built.allocated
  unfold EncoderBuilder.allocateManifest at allocated
  obtain ⟨configs, first, allocated⟩ := exceptBindOk allocated
  obtain ⟨elements, second, allocated⟩ := exceptBindOk allocated
  obtain ⟨presentations, third, allocated⟩ := exceptBindOk allocated
  obtain ⟨substreams, fourth, allocated⟩ := exceptBindOk allocated
  obtain ⟨parameters, fifth, allocated⟩ := exceptBindOk allocated
  injection allocated with same
  injection same with s1 s2 s3 s4 s5 s6 s7
  have resolvedLength : b.resolved.mixPresentations.length = b.mixPresentations.length := List.length_map _
  rw [resolvedLength] at third
  obtain ⟨small1, rfl⟩ := allocateIdsOk.mp first
  obtain ⟨small2, rfl⟩ := allocateIdsOk.mp second
  obtain ⟨small3, rfl⟩ := allocateIdsOk.mp third
  obtain ⟨small4, rfl⟩ := allocateIdsOk.mp fourth
  obtain ⟨small5, rfl⟩ := allocateIdsOk.mp fifth
  exact ⟨⟨s1.symm, small1⟩, ⟨s2.symm, small2⟩, ⟨s3.symm, small3⟩, ⟨s4.symm, small4⟩, ⟨s5.symm, small5⟩, s6.symm, s7.symm⟩

theorem configsPositional (built : Built b encoder manifest) :
    Positional (·.codecConfigId) encoder.descriptors.codecConfigs := by
  intro i config at'
  obtain ⟨declared, from', lowered⟩ := lowerEachFrom built.lowering.1 at'
  obtain ⟨small, here⟩ := built.config from'
  cases at'.symm.trans here
  exact ⟨small, rfl⟩

theorem elementsPositional (built : Built b encoder manifest) :
    Positional (·.audioElementId) encoder.descriptors.audioElements := by
  intro i element at'
  obtain ⟨declaration, from', lowered⟩ := lowerEachFrom built.lowering.2.1 at'
  obtain ⟨small, here⟩ := built.element from'
  cases at'.symm.trans here
  exact ⟨small, rfl⟩

theorem presentationsPositional (built : Built b encoder manifest) :
    Positional (·.mixPresentationId) encoder.descriptors.mixPresentations := by
  intro i presentation at'
  obtain ⟨resolved, from', _⟩ := lowerEachFrom built.lowering.2.2 at'
  rw [b.resolvedAt] at from'
  obtain ⟨declaration, declared, _⟩ := Option.map_eq_some_iff.mp from'
  obtain ⟨other, here, lowered⟩ := built.presentation declared
  cases at'.symm.trans here
  exact ⟨lowered.small, lowered.id⟩

theorem substreamKnown (built : Built b encoder manifest) {d : AudioElementDeclaration} (among : d ∈ b.audioElements)
    {handle : SubstreamHandle} (used : handle ∈ d.substreams) : b.Issued handle := by
  obtain ⟨position, at'⟩ := List.mem_iff_getElem?.mp used
  have checked := (built.checked.elements d among).substreams (handle, position)
    (List.mk_mem_zipIdx_iff_getElem?.mpr at')
  obtain ⟨_, known, _⟩ := exceptBindOk checked
  obtain ⟨own, inside⟩ := Bool.and_eq_true_iff.mp (guardedOk.mp known)
  obtain ⟨_, found⟩ := Option.isSome_iff_exists.mp inside
  exact ⟨beq_iff_eq.mp own, (List.getElem?_eq_some_iff.mp found).1⟩

theorem configKnown (built : Built b encoder manifest) {d : AudioElementDeclaration} (among : d ∈ b.audioElements) :
    b.Issued d.codecConfig := by
  obtain ⟨config, found⟩ := (built.checked.elements d among).codec
  obtain ⟨own, at'⟩ := EncoderBuilder.codecConfigOk.mp found
  exact ⟨own, (List.getElem?_eq_some_iff.mp at').1⟩

theorem referenceKnown (built : Built b encoder manifest) {d : MixPresentationDeclaration}
    (among : d ∈ b.mixPresentations) {handle : AudioElementHandle} (used : handle ∈ d.audioElements) :
    b.Issued handle := by
  have checked := built.checked.presentations _ (List.mem_map_of_mem among)
  obtain ⟨element, found⟩ := checked.references handle used
  obtain ⟨own, at'⟩ := EncoderBuilder.audioElementOk.mp found
  exact ⟨own, (List.getElem?_eq_some_iff.mp at').1⟩

theorem parameterKnown (built : Built b encoder manifest) {d : MixPresentationDeclaration}
    (among : d ∈ b.mixPresentations) {handle : ParameterHandle} (used : handle ∈ d.parameters) : b.Issued handle :=
  built.parameters.known handle (List.mem_flatMap.mpr ⟨d, among, used⟩)

theorem lookupAll {kind : HandleKind} {length : Nat} {handles : List (Handle kind)} {generation : UInt64}
    (issued : ∀ handle ∈ handles, handle.generation = generation ∧ handle.index < length) :
    (handleIds handles).map some = handles.map (lookupId (issuedIds kind generation length)) := by
  rw [handleIds, List.map_map]
  refine List.map_congr_left fun handle among => ?_
  obtain ⟨own, inside⟩ := issued handle among
  exact (lookupIssued own inside).symm

theorem configIds (built : Built b encoder manifest) {i : Nat} {declared : CodecConfig}
    (at' : b.codecConfigs[i]? = some declared) :
    ConfigIds b encoder.descriptors manifest i declared { declared with codecConfigId := UInt32.ofNat i } := by
  obtain ⟨_, here⟩ := built.config at'
  refine ⟨here, rfl, ?_, positionalFind built.configsPositional here⟩
  unfold IdManifest.codecConfigId
  rw [built.manifestIs.1.1]
  exact lookupIssued rfl (List.getElem?_eq_some_iff.mp at').1

theorem elementIds (built : Built b encoder manifest) {i : Nat} {d : AudioElementDeclaration}
    (at' : b.audioElements[i]? = some d) : ElementIds b encoder.descriptors manifest i d (d.lowered i) := by
  have among := List.mem_of_getElem? at'
  obtain ⟨_, here⟩ := built.element at'
  obtain ⟨⟨codecs, _⟩, ⟨elements, _⟩, _, ⟨substreams, _⟩, _, uses, _⟩ := built.manifestIs
  have codec := built.configKnown among
  have count := (built.checked.elements d among).count
  refine ⟨here, ?_, ?_, positionalFind built.elementsPositional here, ?_, ?_, ?_, ?_⟩
  · have blank : (handleIds d.substreams).map (fun _ => (0 : UInt32)) = d.element.audioSubstreamIds.map fun _ => 0 := by
      rw [List.map_const', List.map_const', handleIds, List.length_map, count]
    simp only [AudioElement.anonymous, AudioElementDeclaration.lowered, blank]
  · unfold IdManifest.audioElementId
    rw [elements]
    exact lookupIssued rfl (List.getElem?_eq_some_iff.mp at').1
  · unfold IdManifest.codecConfigId
    rw [codecs]
    exact lookupIssued codec.1 codec.2
  · have declared := List.getElem?_eq_getElem codec.2
    exact ⟨_, _, declared, built.configIds declared, rfl⟩
  · unfold IdManifest.substreams
    rw [uses]
    exact Nat.zero_add i ▸ lookupDeclared b.generation (fun d => d.substreams) at'
  · refine (lookupAll fun handle used => built.substreamKnown among used).trans ?_
    unfold IdManifest.substreamId
    rw [substreams]
    rfl

theorem presentationIds (built : Built b encoder manifest) {i : Nat} {d : MixPresentationDeclaration}
    (at' : b.mixPresentations[i]? = some d) :
    ∃ presentation, PresentationIds b encoder.descriptors manifest i d presentation := by
  have among := List.mem_of_getElem? at'
  obtain ⟨presentation, here, lowered⟩ := built.presentation at'
  obtain ⟨_, ⟨elements, _⟩, ⟨presentations, _⟩, _, ⟨parameters, _⟩, _, uses⟩ := built.manifestIs
  refine ⟨presentation, here, lowered.same, ?_, ?_, fun handle used => ?_, ?_, ?_⟩
  · unfold IdManifest.mixPresentationId
    rw [presentations, lowered.id]
    exact lookupIssued rfl (List.getElem?_eq_some_iff.mp at').1
  · rw [lowered.references]
    refine (lookupAll fun handle used => built.referenceKnown among used).trans ?_
    unfold IdManifest.audioElementId
    rw [elements]
    rfl
  · obtain ⟨own, inside⟩ := built.referenceKnown among used
    have declared := List.getElem?_eq_getElem inside
    have ids := built.elementIds declared
    refine ⟨_, _, declared, ids, ?_⟩
    rw [← ids.id, ← own]
  · unfold IdManifest.parameters
    rw [uses]
    have resolvedAt : b.resolved.mixPresentations[i]? = some (b.resolvedPresentation d) := by
      rw [b.resolvedAt, at', Option.map_some]
    exact Nat.zero_add i ▸ lookupDeclared b.generation (fun d => d.parameters) resolvedAt
  · rw [lowered.gains]
    refine (lookupAll fun handle used => built.parameterKnown among used).trans ?_
    unfold IdManifest.parameterId
    rw [parameters]
    rfl

theorem parametersInOrder (built : Built b encoder manifest) :
    gainIds (encoder.descriptors.mixPresentations.flatMap (·.gains)) =
      handleIds (EncoderBuilder.usedParameters b.mixPresentations) := by
  have each : encoder.descriptors.mixPresentations.map (fun presentation => gainIds presentation.gains) =
      b.mixPresentations.map fun d => handleIds d.parameters := by
    refine List.ext_getElem? fun i => ?_
    rw [List.getElem?_map, List.getElem?_map]
    cases declared : b.mixPresentations[i]? with
    | some d =>
      obtain ⟨presentation, here, lowered⟩ := built.presentation declared
      rw [here, Option.map_some, Option.map_some, lowered.gains]
      rfl
    | none =>
      have length := (lowerEachAt built.lowering.2.2).1
      have outside := List.getElem?_eq_none_iff.mp declared
      have none' : encoder.descriptors.mixPresentations[i]? = none :=
        List.getElem?_eq_none_iff.mpr (by rwa [length, EncoderBuilder.resolved, List.length_map])
      rw [none', Option.map_none, Option.map_none]
  unfold gainIds handleIds EncoderBuilder.usedParameters
  rw [List.map_flatMap, List.map_flatMap, List.flatMap_def, List.flatMap_def]
  exact congrArg List.flatten each

theorem parameterIndices (built : Built b encoder manifest) :
    ((EncoderBuilder.usedParameters b.mixPresentations).map (·.index)).Nodup := by
  refine List.Nodup.map_on (fun x among y among' same => ?_) built.parameters.once
  obtain ⟨own, _⟩ := built.parameters.known x among
  obtain ⟨own', _⟩ := built.parameters.known y among'
  cases x
  cases y
  cases own
  cases own'
  cases same
  rfl

theorem parametersDistinct (built : Built b encoder manifest) :
    (gainIds (encoder.descriptors.mixPresentations.flatMap (·.gains))).Nodup := by
  have small := built.manifestIs.2.2.2.2.1.2
  rw [built.parametersInOrder, handleIds, show (fun handle : ParameterHandle => UInt32.ofNat handle.index) =
    UInt32.ofNat ∘ (·.index) from rfl, ← List.map_map]
  refine List.Nodup.map_on (fun i among j among' same => ?_) built.parameterIndices
  have inside (k : Nat) (used : k ∈ (EncoderBuilder.usedParameters b.mixPresentations).map (·.index)) : k ≤ u32Max := by
    obtain ⟨handle, among, rfl⟩ := List.mem_map.mp used
    have known := (built.parameters.known handle among).2
    omega
  exact positionInjective (inside i among) (inside j among') same

theorem parametersUsed (built : Built b encoder manifest) {i : Nat} (inside : i < b.parameters.length) :
    ∃ d ∈ b.mixPresentations, ⟨b.generation, i⟩ ∈ d.parameters := by
  have below : (EncoderBuilder.usedParameters b.mixPresentations).map (·.index) ⊆ List.range b.parameters.length := by
    intro k used
    obtain ⟨handle, among, rfl⟩ := List.mem_map.mp used
    exact List.mem_range.mpr (built.parameters.known handle among).2
  have full := (List.subperm_of_subset built.parameterIndices below).perm_of_length_le
    (by rw [List.length_range, List.length_map, built.parameters.all])
  obtain ⟨handle, among, same⟩ := List.mem_map.mp (full.mem_iff.mpr (List.mem_range.mpr inside))
  obtain ⟨own, _⟩ := built.parameters.known handle among
  obtain ⟨d, declared, used⟩ := List.mem_flatMap.mp among
  refine ⟨d, declared, ?_⟩
  rwa [← own, ← same]

theorem substreamsUsed (built : Built b encoder manifest) {i : Nat} (inside : i < b.substreams.length) :
    ∃ d ∈ b.audioElements, ⟨b.generation, i⟩ ∈ d.substreams := by
  obtain ⟨d, declared, handle, used, same⟩ := built.checked.used i inside
  refine ⟨d, declared, ?_⟩
  rwa [← (built.substreamKnown declared used).1, ← same]

end Built

theorem builtIdsSound {b : EncoderBuilder} {encoder : Encoder} {manifest : IdManifest}
    (ok : b.build = .ok (encoder, manifest)) : IdsSound b encoder.descriptors manifest := by
  have built := buildOk.mp ok
  obtain ⟨configs, elements, presentations⟩ := built.lowering
  have presented : b.resolved.mixPresentations.length = b.mixPresentations.length := List.length_map _
  exact {
    elementHandles := fun d among => ⟨built.configKnown among, fun handle used => built.substreamKnown among used⟩
    presentationHandles := fun d among => ⟨fun handle used => built.referenceKnown among used,
      fun handle used => built.parameterKnown among used⟩
    lengths := ⟨(lowerEachAt configs).1, (lowerEachAt elements).1, (lowerEachAt presentations).1.trans presented⟩
    configs := fun i declared at' => ⟨_, built.configIds at'⟩
    elements := fun i d at' => ⟨_, built.elementIds at'⟩
    presentations := fun i d at' => built.presentationIds at'
    distinctConfigs := positionalNodup built.configsPositional
    distinctElements := positionalNodup built.elementsPositional
    distinctPresentations := positionalNodup built.presentationsPositional
    distinctParameters := built.parametersDistinct
    usedSubstreams := fun i inside => built.substreamsUsed inside
    usedParameters := fun i inside => built.parametersUsed inside }

def IdManifest.idOf (manifest : IdManifest) : Returned → Option UInt32
  | ⟨.codecConfig, handle⟩ => manifest.codecConfigId handle
  | ⟨.audioElement, handle⟩ => manifest.audioElementId handle
  | ⟨.mixPresentation, handle⟩ => manifest.mixPresentationId handle
  | ⟨.substream, handle⟩ => manifest.substreamId handle
  | ⟨.parameter, handle⟩ => manifest.parameterId handle

theorem Built.idOfIssued {b : EncoderBuilder} {encoder : Encoder} {manifest : IdManifest} (built : Built b encoder manifest)
    {handle : Returned} (issued : b.Issued handle.2) :
    manifest.idOf handle = some (UInt32.ofNat handle.2.index) ∧ handle.2.index ≤ u32Max := by
  obtain ⟨⟨configs, few⟩, ⟨elements, few'⟩, ⟨presentations, few''⟩, ⟨substreams, small⟩,
    ⟨parameters, small'⟩, _⟩ := built.manifestIs
  obtain ⟨kind, handle⟩ := handle
  obtain ⟨own, inside⟩ := issued
  have known := lookupIssued own inside
  cases kind with
  | codecConfig => exact ⟨(congrArg (lookupId · handle) configs).trans known, Nat.le_of_lt_succ (inside.trans_le few)⟩
  | audioElement => exact ⟨(congrArg (lookupId · handle) elements).trans known, Nat.le_of_lt_succ (inside.trans_le few')⟩
  | mixPresentation =>
    exact ⟨(congrArg (lookupId · handle) presentations).trans known, Nat.le_of_lt_succ (inside.trans_le few'')⟩
  | substream => exact ⟨(congrArg (lookupId · handle) substreams).trans known, Nat.le_of_lt_succ (inside.trans_le small)⟩
  | parameter => exact ⟨(congrArg (lookupId · handle) parameters).trans known, Nat.le_of_lt_succ (inside.trans_le small')⟩

theorem returnedHandles {generation : UInt64} {calls : List DeclareCall} {handles : List Returned} {b : EncoderBuilder}
    (ran : declareAll calls (.new generation) = (handles, b)) : handles.length = calls.length ∧
      (∀ handle ∈ handles, b.Issued handle.2) ∧ handles.Nodup ∧
      ∀ encoder manifest, b.build = .ok (encoder, manifest) → ∀ handle ∈ handles, ∃ id, manifest.idOf handle = some id ∧
        ∀ other ∈ handles, other.1 = handle.1 → manifest.idOf other = some id → other = handle := by
  obtain ⟨issued, apart⟩ := (declareAllIssues calls).2 (.new generation)
  have count (calls : List DeclareCall) (b : EncoderBuilder) : (declareAll calls b).1.length = calls.length := by
    induction calls generalizing b with
    | nil => rfl
    | cons call calls ih => exact congrArg (· + 1) (ih (call.declare b).2)
  have counted := count calls (.new generation)
  rw [ran] at issued apart counted
  refine ⟨counted, fun handle among => (issued handle among).1, apart, fun encoder manifest ok handle among => ?_⟩
  have built := buildOk.mp ok
  obtain ⟨known, small⟩ := built.idOfIssued (issued handle among).1
  refine ⟨_, known, fun other among' same known' => ?_⟩
  obtain ⟨own, inside⟩ := (issued handle among).1
  obtain ⟨own', inside'⟩ := (issued other among').1
  obtain ⟨here, small'⟩ := built.idOfIssued (issued other among').1
  have index := positionInjective small' small (Option.some.inj (here.symm.trans known'))
  obtain ⟨kind, ⟨_, _⟩⟩ := handle
  obtain ⟨kind', ⟨_, _⟩⟩ := other
  cases same
  cases own
  cases own'
  cases index
  rfl

def stereoElement (id : UInt32) : AudioElement :=
  .channelBased id id [id] (.singleLayer (.new .stereo 1 1))

def stereoPresentation (id : UInt32) : MixPresentation :=
  ⟨id, [], [], [⟨[⟨id, [], .stereo, .mode1 id 48000⟩], .mode1 (id + 1) 48000,
    [⟨.soundSystem .a0_2_0, 0, .new 0 0⟩]⟩], []⟩

def declareStereo (id : UInt32) : EncoderBuilder.Declare MixPresentationHandle := do
  let codec ← EncoderBuilder.addCodecConfig (.lpcm id 960 ⟨.littleEndian, 16, 48000⟩)
  let element ← EncoderBuilder.addAudioElement codec (stereoElement id)
  EncoderBuilder.addMixPresentation [element] (stereoPresentation id)

def stereoBuilder (generation : UInt64) (id : UInt32) : EncoderBuilder := (declareStereo id (.new generation)).2

theorem sortedOne {T : Type} (id : T → UInt32) (item : T) : sortedById id [item] = [item] :=
  List.mergeSort_singleton _

theorem stereoBuilds : ∃ encoder manifest, (stereoBuilder 7 3).build = .ok (encoder, manifest) := by
  have built : (stereoBuilder 7 3).build.toOption.isSome = true := by decide +kernel
  cases ran : (stereoBuilder 7 3).build with
  | error e =>
    rw [ran] at built
    cases built
  | ok pair => exact ⟨pair.1, pair.2, rfl⟩

theorem returnedHandlesStereo : ∃ (handles : List Returned) (encoder : Encoder) (manifest : IdManifest),
    handles.length = 3 ∧ handles.Nodup ∧
    (stereoBuilder 7 3).build = .ok (encoder, manifest) ∧ ∀ handle ∈ handles, ∃ id, manifest.idOf handle = some id ∧
      ∀ other ∈ handles, other.1 = handle.1 → manifest.idOf other = some id → other = handle := by
  obtain ⟨encoder, manifest, ok⟩ := stereoBuilds
  have ran : declareAll [.codecConfig (.lpcm 3 960 ⟨.littleEndian, 16, 48000⟩), .audioElement ⟨7, 0⟩ (stereoElement 3),
      .mixPresentation [⟨7, 0⟩] (stereoPresentation 3)] (.new 7) =
      ([⟨.codecConfig, 7, 0⟩, ⟨.audioElement, 7, 0⟩, ⟨.mixPresentation, 7, 0⟩], stereoBuilder 7 3) := rfl
  obtain ⟨count, _, apart, ids⟩ := returnedHandles ran
  exact ⟨_, encoder, manifest, count, apart, ok, ids encoder manifest ok⟩

theorem builtIdsSoundStereo : ∃ encoder manifest, (stereoBuilder 7 3).build = .ok (encoder, manifest) ∧
    IdsSound (stereoBuilder 7 3) encoder.descriptors manifest := by
  obtain ⟨encoder, manifest, ok⟩ := stereoBuilds
  exact ⟨encoder, manifest, ok, builtIdsSound ok⟩

end Iamf.Wire
