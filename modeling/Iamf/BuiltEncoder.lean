import Iamf.EncoderBuild

/-! What a successful `build` has established: the checks passed, the parameter handles are the
builder's own and each is used once, and the descriptors are the templates with new ids. -/
namespace Iamf.Wire
open Bits BitString TapeCodec

theorem checkEachOk {T : Type} {check : T → Except Error Unit} {items : List T} :
    checkEach check items = .ok () ↔ ∀ item ∈ items, check item = .ok () := by
  induction items with
  | nil => simp [checkEach]
  | cons item items ih =>
    rw [List.forall_mem_cons, ← ih]
    constructor
    · intro ok
      obtain ⟨_, first, others⟩ := exceptBindOk ok
      exact ⟨first, others⟩
    · intro ⟨first, others⟩
      exact (exceptBindOf _ first).trans others

theorem wireIdOk {index : Nat} {id : UInt32} : wireId index = .ok id ↔ index ≤ u32Max ∧ id = UInt32.ofNat index := by
  unfold wireId u32TryFrom
  split_ifs with small
  · simp only [Except.ok.injEq, small, true_and, eq_comm]
  · simp [small]

theorem wireIdOf {index : Nat} (small : index ≤ u32Max) : wireId index = .ok (UInt32.ofNat index) :=
  wireIdOk.mpr ⟨small, rfl⟩

theorem wireIdInjective {i j : Nat} {a b : UInt32} (first : wireId i = .ok a) (second : wireId j = .ok b) :
    a = b ↔ i = j := by
  have left := u32TryFromOk first
  have right := u32TryFromOk second
  constructor
  · intro same
    rw [← left, ← right, same]
  · intro same
    exact UInt32.toNat_inj.mp (by rw [left, right, same])

theorem mapMOk {T U : Type} {f : T → Except Error U} {P : T → Prop} {g : T → U}
    (each : ∀ item v, f item = .ok v ↔ P item ∧ v = g item) {items : List T} {out : List U} :
    items.mapM f = .ok out ↔ (∀ item ∈ items, P item) ∧ out = items.map g := by
  induction items generalizing out with
  | nil =>
    simp only [List.mapM_nil, pure, Except.pure, Except.ok.injEq, List.not_mem_nil, false_implies, implies_true,
      List.map_nil, true_and]
    exact eq_comm
  | cons item items ih =>
    rw [List.mapM_cons, List.forall_mem_cons, List.map_cons]
    constructor
    · intro ok
      obtain ⟨v, first, ok⟩ := exceptBindOk ok
      obtain ⟨others, rest, ok⟩ := exceptBindOk ok
      cases ok
      obtain ⟨holds, rfl⟩ := (each item v).mp first
      obtain ⟨hold, rfl⟩ := ih.mp rest
      exact ⟨⟨holds, hold⟩, rfl⟩
    · intro ⟨⟨holds, hold⟩, same⟩
      rw [exceptBindOf _ ((each item _).mpr ⟨holds, rfl⟩), exceptBindOf _ (ih.mpr ⟨hold, rfl⟩), same]
      rfl

theorem wireIdsOk {kind : HandleKind} {handles : List (Handle kind)} {ids : List UInt32} :
    handles.mapM (fun handle => wireId handle.index) = .ok ids ↔
      (∀ handle ∈ handles, handle.index ≤ u32Max) ∧ ids = handles.map fun handle => UInt32.ofNat handle.index :=
  mapMOk fun _ _ => wireIdOk

section

variable {T U : Type} {lower : T → Nat → Except Error U}

theorem lowerEachAt {items : List T} {out : List U} {start : Nat} (ok : lowerEach lower items start = .ok out) :
    out.length = items.length ∧ ∀ i item, items[i]? = some item →
      ∃ v, out[i]? = some v ∧ lower item (start + i) = .ok v := by
  induction items generalizing out start with
  | nil =>
    cases ok
    simp
  | cons item items ih =>
    obtain ⟨v, first, ok⟩ := exceptBindOk ok
    obtain ⟨others, rest, ok⟩ := exceptBindOk ok
    cases ok
    obtain ⟨length, each⟩ := ih rest
    constructor
    · rw [List.length_cons, List.length_cons, length]
    · intro i found at'
      cases i with
      | zero =>
        cases at'
        exact ⟨v, rfl, first⟩
      | succ i =>
        obtain ⟨u, here, lowered⟩ := each i found at'
        exact ⟨u, here, by rwa [Nat.add_right_comm, Nat.add_assoc] at lowered⟩

theorem lowerEachFrom {items : List T} {out : List U} (ok : lowerEach lower items 0 = .ok out) {i : Nat} {v : U}
    (at' : out[i]? = some v) : ∃ item, items[i]? = some item ∧ lower item i = .ok v := by
  obtain ⟨length, each⟩ := lowerEachAt ok
  have inside : i < items.length := length ▸ (List.getElem?_eq_some_iff.mp at').1
  obtain ⟨u, here, lowered⟩ := each i items[i] (List.getElem?_eq_getElem inside)
  cases at'.symm.trans here
  exact ⟨items[i], List.getElem?_eq_getElem inside, by rwa [Nat.zero_add] at lowered⟩

end

def MixGainParamDefinition.anonymous (gain : MixGainParamDefinition) : MixGainParamDefinition := gain.withId 0

def SubMixAudioElement.anonymous (element : SubMixAudioElement) : SubMixAudioElement :=
  { element with audioElementId := 0, elementMixGain := element.elementMixGain.anonymous }

def SubMix.anonymous (subMix : SubMix) : SubMix :=
  { subMix with
    elements := subMix.elements.map (·.anonymous)
    outputMixGain := subMix.outputMixGain.anonymous }

def MixPresentation.anonymous (presentation : MixPresentation) : MixPresentation :=
  { presentation with mixPresentationId := 0, subMixes := presentation.subMixes.map (·.anonymous) }

def AudioElement.anonymous (element : AudioElement) : AudioElement :=
  { element with
    audioElementId := 0
    codecConfigId := 0
    audioSubstreamIds := element.audioSubstreamIds.map fun _ => 0 }

def CodecConfig.anonymous (config : CodecConfig) : CodecConfig := { config with codecConfigId := 0 }

def handleIds {kind : HandleKind} (handles : List (Handle kind)) : List UInt32 :=
  handles.map fun handle => UInt32.ofNat handle.index

def gainIds (gains : List MixGainParamDefinition) : List UInt32 := gains.map (·.definition.parameterId)

theorem anonymousLength {xs ys : List SubMixAudioElement} (same : xs.map (·.anonymous) = ys.map (·.anonymous)) :
    xs.length = ys.length := by
  have lengths := congrArg List.length same
  simpa only [List.length_map] using lengths

structure LoweredElements (elements : List SubMixAudioElement) (handles : List AudioElementHandle)
    (parameters : List ParameterHandle) (out : List SubMixAudioElement) : Prop where
  same : out.map (·.anonymous) = elements.map (·.anonymous)
  enoughHandles : elements.length ≤ handles.length
  enoughParameters : elements.length ≤ parameters.length
  references : out.map (·.audioElementId) = handleIds (handles.take elements.length)
  gains : gainIds (out.map (·.elementMixGain)) = handleIds (parameters.take elements.length)

theorem loweredElements {elements out : List SubMixAudioElement} {handles : List AudioElementHandle}
    {parameters : List ParameterHandle} (ok : lowerElements elements handles parameters = .ok out) :
    LoweredElements elements handles parameters out := by
  induction elements generalizing handles parameters out with
  | nil =>
    cases ok
    exact ⟨rfl, Nat.zero_le _, Nat.zero_le _, rfl, rfl⟩
  | cons element elements ih =>
    obtain ⟨id, reference, ok⟩ := exceptBindOk ok
    obtain ⟨parameterId, gain, ok⟩ := exceptBindOk ok
    obtain ⟨others, rest, ok⟩ := exceptBindOk ok
    cases ok
    have tail := ih rest
    cases handles with
    | nil => cases reference
    | cons handle handles =>
    cases parameters with
    | nil => cases gain
    | cons parameter parameters =>
      obtain ⟨_, rfl⟩ := wireIdOk.mp reference
      obtain ⟨_, rfl⟩ := wireIdOk.mp gain
      refine ⟨?_, Nat.succ_le_succ tail.enoughHandles, Nat.succ_le_succ tail.enoughParameters, ?_, ?_⟩
      · rw [List.map_cons, List.map_cons, tail.same]
        rfl
      · exact congrArg _ tail.references
      · exact congrArg _ tail.gains

def SubMix.gains (subMix : SubMix) : List MixGainParamDefinition :=
  subMix.elements.map (·.elementMixGain) ++ [subMix.outputMixGain]

theorem subMixGainsLength (subMix : SubMix) : subMix.gains.length = subMix.elements.length + 1 := by
  simp [SubMix.gains]

theorem gainsAre (presentation : MixPresentation) : presentation.gains = presentation.subMixes.flatMap (·.gains) := rfl

structure LoweredSubMixes (subMixes : List SubMix) (handles : List AudioElementHandle)
    (parameters : List ParameterHandle) (out : List SubMix) : Prop where
  same : out.map (·.anonymous) = subMixes.map (·.anonymous)
  references : out.flatMap (fun subMix => subMix.elements.map (·.audioElementId)) =
    handleIds (handles.take (subMixes.map (·.elements.length)).sum)
  gains : gainIds (out.flatMap (·.gains)) = handleIds (parameters.take (subMixes.flatMap (·.gains)).length)

theorem outputWireId {parameters : List ParameterHandle} {id : UInt32}
    (ok : parameterWireId parameters.head? = .ok id) : [id] = handleIds (parameters.take 1) := by
  cases parameters with
  | nil => cases ok
  | cons parameter parameters =>
    obtain ⟨_, rfl⟩ := wireIdOk.mp ok
    rfl

theorem loweredSubMixes {subMixes out : List SubMix} {handles : List AudioElementHandle}
    {parameters : List ParameterHandle} (ok : lowerSubMixes subMixes handles parameters = .ok out) :
    LoweredSubMixes subMixes handles parameters out := by
  induction subMixes generalizing handles parameters out with
  | nil =>
    cases ok
    exact ⟨rfl, rfl, rfl⟩
  | cons subMix subMixes ih =>
    obtain ⟨lowered, head, ok⟩ := exceptBindOk ok
    obtain ⟨others, rest, ok⟩ := exceptBindOk ok
    cases ok
    have tail := ih rest
    unfold lowerSubMix at head
    obtain ⟨elements, each, head⟩ := exceptBindOk head
    obtain ⟨parameterId, output, head⟩ := exceptBindOk head
    cases head
    have front := loweredElements each
    constructor
    · rw [List.map_cons, List.map_cons, tail.same]
      exact congrArg (· :: _) (by simp only [SubMix.anonymous, front.same]; rfl)
    · rw [List.flatMap_cons, tail.references, List.map_cons, List.sum_cons, List.take_add, handleIds, handleIds,
        List.map_append, front.references]
      rfl
    · rw [List.flatMap_cons, List.flatMap_cons, List.length_append, subMixGainsLength, List.take_add, gainIds,
        List.map_append, handleIds, List.map_append]
      refine congr (congrArg _ ?_) tail.gains
      rw [SubMix.gains, List.map_append, List.take_add, List.map_append]
      exact congr (congrArg _ front.gains) (outputWireId output)

theorem lowerReferencesSame {elements out : List SubMixAudioElement} {handles : List AudioElementHandle}
    (ok : lowerReferences elements handles = .ok out) : out.map (·.anonymous) = elements.map (·.anonymous) := by
  induction elements generalizing handles out with
  | nil =>
    cases ok
    rfl
  | cons element elements ih =>
    cases handles with
    | nil =>
      cases ok
      rfl
    | cons handle handles =>
      obtain ⟨id, reference, ok⟩ := exceptBindOk ok
      obtain ⟨others, rest, ok⟩ := exceptBindOk ok
      cases ok
      rw [List.map_cons, List.map_cons, ih rest]
      rfl

theorem lowerSubMixReferencesSame {subMixes out : List SubMix} {handles : List AudioElementHandle}
    (ok : lowerSubMixReferences subMixes handles = .ok out) : out.map (·.anonymous) = subMixes.map (·.anonymous) := by
  induction subMixes generalizing handles out with
  | nil =>
    cases ok
    rfl
  | cons subMix subMixes ih =>
    obtain ⟨elements, first, ok⟩ := exceptBindOk ok
    obtain ⟨others, rest, ok⟩ := exceptBindOk ok
    cases ok
    rw [List.map_cons, List.map_cons, ih rest]
    exact congrArg (· :: _) (by simp only [SubMix.anonymous, lowerReferencesSame first])

namespace EncoderBuilder

def declaredGain (b : EncoderBuilder) (handle : ParameterHandle) : Option MixGainParamDefinition :=
  (b.parameters[handle.index]?).map (·.gain)

def KnowsParameter (b : EncoderBuilder) (handle : ParameterHandle) : Prop :=
  handle.generation = b.generation ∧ handle.index < b.parameters.length

theorem resolveParameterOk {b : EncoderBuilder} {used : List ParameterHandle} {handle : ParameterHandle}
    {gain : MixGainParamDefinition} : b.resolveParameter used handle = .ok gain ↔
      b.KnowsParameter handle ∧ handle ∉ used ∧ b.declaredGain handle = some gain := by
  unfold resolveParameter KnowsParameter declaredGain
  cases found : b.parameters[handle.index]? with
  | none => simp
  | some parameter =>
    have inside := (List.getElem?_eq_some_iff.mp found).1
    by_cases own : handle.generation = b.generation
    · by_cases again : handle ∈ used
      · simp [own, again]
      · simp [own, again, inside]
    · simp [own]

theorem resolveGainsOk {b : EncoderBuilder} {used handles : List ParameterHandle} {gains : List MixGainParamDefinition} :
    b.resolveGains used handles = .ok gains ↔ (∀ handle ∈ handles, b.KnowsParameter handle ∧ handle ∉ used) ∧
      handles.Nodup ∧ gains = handles.filterMap b.declaredGain := by
  induction handles generalizing used gains with
  | nil =>
    constructor
    · intro ok
      cases ok
      exact ⟨by simp, List.nodup_nil, rfl⟩
    · intro ⟨_, _, same⟩
      rw [same]
      rfl
  | cons handle handles ih =>
    rw [List.forall_mem_cons, List.nodup_cons]
    constructor
    · intro ok
      obtain ⟨gain, first, ok⟩ := exceptBindOk ok
      obtain ⟨others, rest, ok⟩ := exceptBindOk ok
      cases ok
      obtain ⟨known, fresh, declared⟩ := resolveParameterOk.mp first
      obtain ⟨each, once, rfl⟩ := ih.mp rest
      refine ⟨⟨⟨known, fresh⟩, fun other among => ⟨(each other among).1, fun before => ?_⟩⟩, ⟨fun again => ?_, once⟩, ?_⟩
      · exact (each other among).2 (List.mem_append_left _ before)
      · exact (each handle again).2 (by simp)
      · rw [List.filterMap_cons, declared]
    · intro ⟨⟨⟨known, fresh⟩, each⟩, ⟨new, once⟩, same⟩
      have inside : b.parameters[handle.index]? = some _ := List.getElem?_eq_getElem known.2
      have declared : b.declaredGain handle = some _ := congrArg (Option.map _) inside
      have behind : ∀ other ∈ handles, b.KnowsParameter other ∧ other ∉ used ++ [handle] := by
        intro other among
        refine ⟨(each other among).1, fun before => ?_⟩
        rcases List.mem_append.mp before with earlier | here
        · exact (each other among).2 earlier
        · exact new (List.mem_singleton.mp here ▸ among)
      unfold resolveGains
      rw [exceptBindOf _ (resolveParameterOk.mpr ⟨known, fresh, declared⟩),
        exceptBindOf _ (ih.mpr ⟨behind, once, rfl⟩), same, List.filterMap_cons, declared]

def usedParameters (declarations : List MixPresentationDeclaration) : List ParameterHandle :=
  declarations.flatMap (·.parameters)

def resolvedPresentation (b : EncoderBuilder) (declaration : MixPresentationDeclaration) : MixPresentationDeclaration :=
  { declaration with
    presentation := declaration.presentation.setGains (declaration.parameters.filterMap b.declaredGain) }

def resolved (b : EncoderBuilder) : EncoderBuilder :=
  { b with mixPresentations := b.mixPresentations.map b.resolvedPresentation }

theorem resolvedAt (b : EncoderBuilder) (i : Nat) :
    b.resolved.mixPresentations[i]? = (b.mixPresentations[i]?).map b.resolvedPresentation := List.getElem?_map ..

theorem resolvePresentationsOk {b : EncoderBuilder} {used final : List ParameterHandle}
    {declarations out : List MixPresentationDeclaration} :
    b.resolvePresentations used declarations = .ok (out, final) ↔
      (∀ d ∈ declarations, d.parameters.length = d.presentation.gains.length) ∧
      (∀ handle ∈ usedParameters declarations, b.KnowsParameter handle ∧ handle ∉ used) ∧
      (usedParameters declarations).Nodup ∧ out = declarations.map b.resolvedPresentation ∧
      final = used ++ usedParameters declarations := by
  induction declarations generalizing used out final with
  | nil =>
    constructor
    · intro ok
      cases ok
      exact ⟨by simp, by simp [usedParameters], List.nodup_nil, rfl, (List.append_nil _).symm⟩
    · intro ⟨_, _, _, same, last⟩
      rw [same, last, usedParameters, List.flatMap_nil, List.append_nil]
      rfl
  | cons declaration declarations ih =>
    have split : usedParameters (declaration :: declarations) =
        declaration.parameters ++ usedParameters declarations := List.flatMap_cons
    rw [List.forall_mem_cons, split, List.forall_mem_append, List.nodup_append', List.map_cons, ← List.append_assoc]
    constructor
    · intro ok
      obtain ⟨_, count, ok⟩ := exceptBindOk ok
      obtain ⟨gains, first, ok⟩ := exceptBindOk ok
      obtain ⟨⟨others, final'⟩, rest, ok⟩ := exceptBindOk ok
      cases ok
      obtain ⟨known, once, rfl⟩ := resolveGainsOk.mp first
      obtain ⟨counts, each, distinct, rfl, rfl⟩ := ih.mp rest
      refine ⟨⟨beq_iff_eq.mp (guardedOk.mp count), counts⟩, ⟨known, fun handle among => ?_⟩,
        ⟨once, distinct, fun handle here later => ?_⟩, rfl, rfl⟩
      · exact ⟨(each handle among).1, fun before => (each handle among).2 (List.mem_append_left _ before)⟩
      · exact (each handle later).2 (List.mem_append_right _ here)
    · intro ⟨⟨count, counts⟩, ⟨known, each⟩, ⟨once, distinct, apart⟩, same, last⟩
      have others : ∀ handle ∈ usedParameters declarations,
          b.KnowsParameter handle ∧ handle ∉ used ++ declaration.parameters := by
        intro handle among
        refine ⟨(each handle among).1, fun before => ?_⟩
        rcases List.mem_append.mp before with earlier | here
        · exact (each handle among).2 earlier
        · exact apart here among
      unfold resolvePresentations
      rw [exceptBindOf _ (guardedOk.mpr (beq_iff_eq.mpr count)), exceptBindOf _ (resolveGainsOk.mpr ⟨known, once, rfl⟩),
        exceptBindOf _ (ih.mpr ⟨counts, others, distinct, rfl, rfl⟩), same, last]
      rfl

structure ParametersResolve (b : EncoderBuilder) : Prop where
  counts : ∀ d ∈ b.mixPresentations, d.parameters.length = d.presentation.gains.length
  known : ∀ handle ∈ usedParameters b.mixPresentations, b.KnowsParameter handle
  once : (usedParameters b.mixPresentations).Nodup
  all : (usedParameters b.mixPresentations).length = b.parameters.length

theorem resolveOk {b r : EncoderBuilder} :
    b.resolveParameterReferences = .ok r ↔ b.ParametersResolve ∧ r = b.resolved := by
  constructor
  · intro ok
    obtain ⟨⟨out, final⟩, walked, ok⟩ := exceptBindOk ok
    obtain ⟨_, all, ok⟩ := exceptBindOk ok
    cases ok
    obtain ⟨counts, known, once, rfl, rfl⟩ := resolvePresentationsOk.mp walked
    exact ⟨⟨counts, fun handle among => (known handle among).1, once, beq_iff_eq.mp (guardedOk.mp all)⟩, rfl⟩
  · intro ⟨⟨counts, known, once, all⟩, same⟩
    have walked := resolvePresentationsOk.mpr
      ⟨counts, fun handle among => ⟨known handle among, List.not_mem_nil⟩, once, rfl, rfl⟩
    unfold resolveParameterReferences
    rw [exceptBindOf _ walked]
    exact (exceptBindOf _ (guardedOk.mpr (beq_iff_eq.mpr all))).trans (congrArg _ same.symm)

end EncoderBuilder

namespace EncoderBuilder

theorem codecConfigOk {b : EncoderBuilder} {handle : CodecConfigHandle} {config : CodecConfig} :
    b.codecConfig handle = .ok config ↔ handle.generation = b.generation ∧ b.codecConfigs[handle.index]? = some config := by
  unfold codecConfig
  by_cases own : handle.generation = b.generation
  · cases b.codecConfigs[handle.index]? <;> simp [own]
  · simp [own]

theorem audioElementOk {b : EncoderBuilder} {handle : AudioElementHandle} {declaration : AudioElementDeclaration} :
    b.audioElement handle = .ok declaration ↔
      handle.generation = b.generation ∧ b.audioElements[handle.index]? = some declaration := by
  unfold audioElement
  by_cases own : handle.generation = b.generation
  · cases b.audioElements[handle.index]? <;> simp [own]
  · simp [own]

structure ElementChecked (b : EncoderBuilder) (declaration : AudioElementDeclaration) : Prop where
  codec : ∃ config, b.codecConfig declaration.codecConfig = .ok config
  topology : validateElementTopology declaration.element = .ok ()
  findings : declaration.element.validate = []
  count : declaration.substreams.length = declaration.element.audioSubstreamIds.length
  substreams : ∀ use ∈ declaration.substreams.zipIdx, b.validateSubstream declaration use = .ok ()

theorem validateFindingsOk {findings : List Finding} : validateFindings findings = .ok () ↔ findings = [] := by
  rw [validateFindings, guardedOk, List.isEmpty_iff]

theorem validateAudioElementOk {b : EncoderBuilder} {declaration : AudioElementDeclaration} :
    b.validateAudioElement declaration = .ok () ↔ b.ElementChecked declaration := by
  constructor
  · intro ok
    obtain ⟨config, codec, ok⟩ := exceptBindOk ok
    obtain ⟨_, topology, ok⟩ := exceptBindOk ok
    obtain ⟨_, findings, ok⟩ := exceptBindOk ok
    obtain ⟨_, count, substreams⟩ := exceptBindOk ok
    exact ⟨⟨config, codec⟩, topology, validateFindingsOk.mp findings, beq_iff_eq.mp (guardedOk.mp count),
      checkEachOk.mp substreams⟩
  · intro ⟨⟨config, codec⟩, topology, findings, count, substreams⟩
    unfold validateAudioElement
    rw [exceptBindOf _ codec, exceptBindOf _ topology, exceptBindOf _ (validateFindingsOk.mpr findings),
      exceptBindOf _ (guardedOk.mpr (beq_iff_eq.mpr count))]
    exact checkEachOk.mpr substreams

structure PresentationChecked (b : EncoderBuilder) (declaration : MixPresentationDeclaration) : Prop where
  count : (declaration.presentation.subMixes.map (·.elements.length)).sum = declaration.audioElements.length
  references : ∀ handle ∈ declaration.audioElements, ∃ element, b.audioElement handle = .ok element
  single : declaration.presentation.subMixes.length = 1
  headphones : (declaration.presentation.subMixes.flatMap (·.elements)).any
    (·.renderingConfig.headphonesRenderingMode.isReserved) = false
  distinct : laterDuplicates (· == ·) declaration.audioElements = []
  languages : laterDuplicates eqIgnoreAsciiCase declaration.presentation.annotationsLanguage = []
  tags : declaration.presentation.annotationsLanguage.all isWellFormedLanguageTag = true
  anchors : (declaration.presentation.subMixes.flatMap (·.layouts)).any repeatsAnchor = false
  findings : ∃ subMixes, lowerSubMixReferences declaration.presentation.subMixes declaration.audioElements = .ok subMixes ∧
    { declaration.presentation with subMixes := subMixes }.validate = []
  layouts : ∀ layout ∈ declaration.presentation.subMixes.flatMap (·.layouts), validateLoudnessLayout layout = .ok ()

theorem validateReferenceOk {b : EncoderBuilder} {handle : AudioElementHandle} :
    b.validateReference handle = .ok () ↔ ∃ element, b.audioElement handle = .ok element := by
  constructor
  · intro ok
    obtain ⟨element, found, _⟩ := exceptBindOk ok
    exact ⟨element, found⟩
  · intro ⟨element, found⟩
    exact exceptBindOf _ found

theorem validateMixPresentationOk {b : EncoderBuilder} {declaration : MixPresentationDeclaration} :
    b.validateMixPresentation declaration = .ok () ↔ b.PresentationChecked declaration := by
  constructor
  · intro ok
    obtain ⟨_, count, ok⟩ := exceptBindOk ok
    obtain ⟨_, references, ok⟩ := exceptBindOk ok
    obtain ⟨_, single, ok⟩ := exceptBindOk ok
    obtain ⟨_, headphones, ok⟩ := exceptBindOk ok
    obtain ⟨_, distinct, ok⟩ := exceptBindOk ok
    obtain ⟨_, languages, ok⟩ := exceptBindOk ok
    obtain ⟨_, tags, ok⟩ := exceptBindOk ok
    obtain ⟨_, anchors, ok⟩ := exceptBindOk ok
    obtain ⟨subMixes, lowered, ok⟩ := exceptBindOk ok
    obtain ⟨_, findings, layouts⟩ := exceptBindOk ok
    exact {
      count := beq_iff_eq.mp (guardedOk.mp count)
      references := fun handle among => validateReferenceOk.mp (checkEachOk.mp references handle among)
      single := beq_iff_eq.mp (guardedOk.mp single)
      headphones := Bool.not_eq_true' _ ▸ guardedOk.mp headphones
      distinct := List.isEmpty_iff.mp (guardedOk.mp distinct)
      languages := List.isEmpty_iff.mp (guardedOk.mp languages)
      tags := guardedOk.mp tags
      anchors := Bool.not_eq_true' _ ▸ guardedOk.mp anchors
      findings := ⟨subMixes, lowered, validateFindingsOk.mp findings⟩
      layouts := checkEachOk.mp layouts }
  · intro checked
    obtain ⟨subMixes, lowered, findings⟩ := checked.findings
    have references := checkEachOk.mpr fun handle among => validateReferenceOk.mpr (checked.references handle among)
    unfold validateMixPresentation
    rw [exceptBindOf _ (guardedOk.mpr (beq_iff_eq.mpr checked.count)), exceptBindOf _ references,
      exceptBindOf _ (guardedOk.mpr (beq_iff_eq.mpr checked.single)),
      exceptBindOf _ (guardedOk.mpr (Bool.not_eq_true' _ ▸ checked.headphones)),
      exceptBindOf _ (guardedOk.mpr (List.isEmpty_iff.mpr checked.distinct)),
      exceptBindOf _ (guardedOk.mpr (List.isEmpty_iff.mpr checked.languages)),
      exceptBindOf _ (guardedOk.mpr checked.tags),
      exceptBindOf _ (guardedOk.mpr (Bool.not_eq_true' _ ▸ checked.anchors)), exceptBindOf _ lowered,
      exceptBindOf _ (validateFindingsOk.mpr findings)]
    exact checkEachOk.mpr checked.layouts

theorem validateUsedOk {b : EncoderBuilder} {index : Nat} : b.validateUsed index = .ok () ↔
    ∃ declaration ∈ b.audioElements, ∃ handle ∈ declaration.substreams, handle.index = index := by
  rw [validateUsed, guardedOk, List.any_eq_true]
  simp only [List.any_eq_true, beq_iff_eq]

structure TemplatesChecked (b : EncoderBuilder) : Prop where
  definitions : ∀ entry ∈ (ParamDefinitionRegistry.fromDescriptors b.templates).entries,
    validateParameterDefinition entry.definition = .ok ()
  params : b.audioElements.all (·.element.params.isEmpty) = true
  written : ∃ w, runWriter (writeDescriptors b.templates) = .ok w
  presented : b.mixPresentations ≠ []

theorem validateTemplatesOk {b : EncoderBuilder} : b.validateTemplates = .ok () ↔ b.TemplatesChecked := by
  constructor
  · intro ok
    obtain ⟨_, definitions, ok⟩ := exceptBindOk ok
    obtain ⟨_, params, ok⟩ := exceptBindOk ok
    obtain ⟨w, written, presented⟩ := exceptBindOk ok
    refine ⟨checkEachOk.mp definitions, guardedOk.mp params, ⟨w, written⟩, fun none => ?_⟩
    rw [none] at presented
    cases presented
  · intro ⟨definitions, params, ⟨w, written⟩, presented⟩
    unfold validateTemplates
    rw [exceptBindOf _ (checkEachOk.mpr definitions), exceptBindOf _ (guardedOk.mpr params), exceptBindOf _ written]
    refine guardedOk.mpr ?_
    rw [Bool.not_eq_true', List.isEmpty_eq_false_iff]
    exact presented

structure Checked (b : EncoderBuilder) : Prop where
  implicitSubstreams : validateImplicitIds b.substreams "audio_substream_id" = .ok ()
  implicitParameters : validateImplicitIds (b.parameters.map (·.implicitId)) "parameter_id" = .ok ()
  parameters : ∀ parameter ∈ b.parameters, validateParameter parameter = .ok ()
  configs : ∀ config ∈ b.codecConfigs, validateCodecConfig config = .ok ()
  single : b.codecConfigs.length ≤ 1
  timing : b.validateTiming = .ok ()
  elements : ∀ declaration ∈ b.audioElements, b.ElementChecked declaration
  presentations : ∀ declaration ∈ b.mixPresentations, b.PresentationChecked declaration
  used : ∀ index < b.substreams.length,
    ∃ declaration ∈ b.audioElements, ∃ handle ∈ declaration.substreams, handle.index = index
  templates : b.TemplatesChecked

theorem validateDeclarationsOk {b : EncoderBuilder} : b.validateDeclarations = .ok () ↔ b.Checked := by
  constructor
  · intro ok
    obtain ⟨_, implicitSubstreams, ok⟩ := exceptBindOk ok
    obtain ⟨_, implicitParameters, ok⟩ := exceptBindOk ok
    obtain ⟨_, parameters, ok⟩ := exceptBindOk ok
    obtain ⟨_, configs, ok⟩ := exceptBindOk ok
    obtain ⟨_, single, ok⟩ := exceptBindOk ok
    obtain ⟨_, timing, ok⟩ := exceptBindOk ok
    obtain ⟨_, elements, ok⟩ := exceptBindOk ok
    obtain ⟨_, presentations, ok⟩ := exceptBindOk ok
    obtain ⟨_, used, templates⟩ := exceptBindOk ok
    exact {
      implicitSubstreams := implicitSubstreams
      implicitParameters := implicitParameters
      parameters := checkEachOk.mp parameters
      configs := checkEachOk.mp configs
      single := of_decide_eq_true (guardedOk.mp single)
      timing := timing
      elements := fun d among => validateAudioElementOk.mp (checkEachOk.mp elements d among)
      presentations := fun d among => validateMixPresentationOk.mp (checkEachOk.mp presentations d among)
      used := fun index inside => validateUsedOk.mp (checkEachOk.mp used index (List.mem_range.mpr inside))
      templates := validateTemplatesOk.mp templates }
  · intro checked
    have elements := checkEachOk.mpr fun d among => validateAudioElementOk.mpr (checked.elements d among)
    have presentations := checkEachOk.mpr fun d among => validateMixPresentationOk.mpr (checked.presentations d among)
    have used := checkEachOk.mpr fun index among =>
      validateUsedOk.mpr (checked.used index (List.mem_range.mp among))
    unfold validateDeclarations
    rw [exceptBindOf _ checked.implicitSubstreams, exceptBindOf _ checked.implicitParameters,
      exceptBindOf _ (checkEachOk.mpr checked.parameters), exceptBindOf _ (checkEachOk.mpr checked.configs),
      exceptBindOf _ (guardedOk.mpr (decide_eq_true checked.single)), exceptBindOf _ checked.timing,
      exceptBindOf _ elements, exceptBindOf _ presentations, exceptBindOf _ used]
    exact validateTemplatesOk.mpr checked.templates

end EncoderBuilder

def issuedIds (kind : HandleKind) (generation : UInt64) (length : Nat) : List (Handle kind × UInt32) :=
  (List.range length).map fun index => (⟨generation, index⟩, UInt32.ofNat index)

theorem allocateIdsOk {kind : HandleKind} {generation : UInt64} {length : Nat} {ids : List (Handle kind × UInt32)} :
    allocateIds kind generation length = .ok ids ↔ length ≤ u32Max + 1 ∧ ids = issuedIds kind generation length := by
  have step (index : Nat) (entry : Handle kind × UInt32) :
      (wireId index >>= fun id => Except.ok (⟨generation, index⟩, id)) = .ok entry ↔
        index ≤ u32Max ∧ entry = (⟨generation, index⟩, UInt32.ofNat index) := by
    constructor
    · intro ok
      obtain ⟨id, allocated, ok⟩ := exceptBindOk ok
      cases ok
      obtain ⟨small, rfl⟩ := wireIdOk.mp allocated
      exact ⟨small, rfl⟩
    · intro ⟨small, same⟩
      rw [exceptBindOf _ (wireIdOf small), same]
  unfold allocateIds issuedIds
  rw [mapMOk step]
  refine and_congr_left fun _ => ⟨fun each => ?_, fun fits index among => ?_⟩
  · by_contra more
    have last := each (u32Max + 1) (List.mem_range.mpr (by omega))
    omega
  · have inside := List.mem_range.mp among
    omega

theorem lookupIssued {kind : HandleKind} {generation : UInt64} {length : Nat} {handle : Handle kind}
    (own : handle.generation = generation) (inside : handle.index < length) :
    lookupId (issuedIds kind generation length) handle = some (UInt32.ofNat handle.index) := by
  have found : (List.range length).find? (fun index => (⟨generation, index⟩ : Handle kind) == handle) =
      some handle.index := by
    refine List.find?_range_eq_some.mpr ⟨beq_iff_eq.mpr (own ▸ rfl), List.mem_range.mpr inside, fun j before => ?_⟩
    rw [Bool.not_eq_true', beq_eq_false_iff_ne]
    intro same
    exact absurd (congrArg Handle.index same) (by simp only; omega)
  unfold lookupId lookupEntry issuedIds
  rw [List.find?_map]
  exact congrArg (fun index => (index.map fun index => ((⟨generation, index⟩ : Handle kind), UInt32.ofNat index)).map (·.2))
    found

theorem lookupDeclared {kind : HandleKind} {T U : Type} (generation : UInt64) (pick : T → U) {items : List T}
    {start i : Nat} {item : T} (at' : items[i]? = some item) :
    lookupEntry ((items.zipIdx start).map fun (item, index) => ((⟨generation, index⟩ : Handle kind), pick item))
      ⟨generation, start + i⟩ = some (pick item) := by
  induction items generalizing start i with
  | nil => cases at'
  | cons first items ih =>
    unfold lookupEntry at ih ⊢
    rw [List.zipIdx_cons, List.map_cons, List.find?_cons]
    cases i with
    | zero =>
      cases at'
      simp
    | succ i =>
      have other : ((⟨generation, start⟩ : Handle kind) == ⟨generation, start + (i + 1)⟩) = false := by
        simp
      rw [other, ← Nat.add_assoc, Nat.add_right_comm]
      exact ih at'

/-- What `build` has gone through when it returns. -/
structure Built (b : EncoderBuilder) (encoder : Encoder) (manifest : IdManifest) : Prop where
  parameters : b.ParametersResolve
  checked : b.resolved.Checked
  allocated : b.resolved.allocateManifest = .ok { manifest with sequenceProfile := .simple }
  lowered : b.resolved.lowerDescriptors = .ok { encoder.descriptors with sequenceHeader := .new 0 0 }
  selected : selectSequenceProfile encoder.descriptors.audioElements encoder.descriptors.mixPresentations =
    .ok (manifest.sequenceProfile, manifest.sequenceProfile)
  header : encoder.descriptors.sequenceHeader = .new manifest.sequenceProfile.toWire manifest.sequenceProfile.toWire
  generation : encoder.generation = b.generation

theorem buildOk {b : EncoderBuilder} {encoder : Encoder} {manifest : IdManifest} :
    b.build = .ok (encoder, manifest) ↔ Built b encoder manifest := by
  constructor
  · intro ok
    obtain ⟨r, resolved, ok⟩ := exceptBindOk ok
    obtain ⟨_, checked, ok⟩ := exceptBindOk ok
    obtain ⟨unselected, allocated, ok⟩ := exceptBindOk ok
    obtain ⟨descriptors, lowered, ok⟩ := exceptBindOk ok
    obtain ⟨⟨primary, additional⟩, selected, ok⟩ := exceptBindOk ok
    obtain ⟨parameters, rfl⟩ := EncoderBuilder.resolveOk.mp resolved
    obtain ⟨rfl, _⟩ := selectSequenceProfileOk selected
    have plain : descriptors.sequenceHeader = .new 0 0 := by
      unfold EncoderBuilder.lowerDescriptors at lowered
      obtain ⟨_, _, lowered⟩ := exceptBindOk lowered
      obtain ⟨_, _, lowered⟩ := exceptBindOk lowered
      obtain ⟨_, _, lowered⟩ := exceptBindOk lowered
      cases lowered
      rfl
    have simple : unselected.sequenceProfile = .simple := by
      unfold EncoderBuilder.allocateManifest at allocated
      obtain ⟨_, _, allocated⟩ := exceptBindOk allocated
      obtain ⟨_, _, allocated⟩ := exceptBindOk allocated
      obtain ⟨_, _, allocated⟩ := exceptBindOk allocated
      obtain ⟨_, _, allocated⟩ := exceptBindOk allocated
      obtain ⟨_, _, allocated⟩ := exceptBindOk allocated
      cases allocated
      rfl
    cases ok
    refine ⟨parameters, EncoderBuilder.validateDeclarationsOk.mp checked, ?_, ?_, selected, rfl, rfl⟩
    · rw [allocated, ← simple]
    · rw [lowered, ← plain]
  · intro built
    unfold EncoderBuilder.build
    rw [exceptBindOf _ (EncoderBuilder.resolveOk.mpr ⟨built.parameters, rfl⟩),
      exceptBindOf _ (EncoderBuilder.validateDeclarationsOk.mpr built.checked), exceptBindOf _ built.allocated,
      exceptBindOf _ built.lowered, exceptBindOf _ built.selected]
    obtain ⟨⟨header, configs, elements, presentations⟩, generation⟩ := encoder
    have same := built.header
    have own := built.generation
    cases same
    cases own
    rfl

def AudioElementDeclaration.lowered (declaration : AudioElementDeclaration) (index : Nat) : AudioElement :=
  { declaration.element with
    audioElementId := UInt32.ofNat index
    codecConfigId := UInt32.ofNat declaration.codecConfig.index
    audioSubstreamIds := handleIds declaration.substreams }

theorem lowerAudioElementOk {declaration : AudioElementDeclaration} {index : Nat} {element : AudioElement} :
    lowerAudioElement declaration index = .ok element ↔ declaration.codecConfig.index ≤ u32Max ∧ index ≤ u32Max ∧
      (∀ handle ∈ declaration.substreams, handle.index ≤ u32Max) ∧ element = declaration.lowered index := by
  constructor
  · intro ok
    obtain ⟨_, codec, ok⟩ := exceptBindOk ok
    obtain ⟨_, id, ok⟩ := exceptBindOk ok
    obtain ⟨_, substreams, ok⟩ := exceptBindOk ok
    cases ok
    obtain ⟨smallCodec, rfl⟩ := wireIdOk.mp codec
    obtain ⟨small, rfl⟩ := wireIdOk.mp id
    obtain ⟨each, rfl⟩ := wireIdsOk.mp substreams
    exact ⟨smallCodec, small, each, rfl⟩
  · intro ⟨smallCodec, small, each, same⟩
    unfold lowerAudioElement
    rw [exceptBindOf _ (wireIdOf smallCodec), exceptBindOf _ (wireIdOf small),
      exceptBindOf _ (wireIdsOk.mpr ⟨each, rfl⟩), same]
    rfl

theorem setElementGainsLength (elements : List SubMixAudioElement) (gains : List MixGainParamDefinition) :
    (setElementGains elements gains).length = elements.length := by
  induction elements generalizing gains with
  | nil => cases gains <;> rfl
  | cons element elements ih =>
    cases gains with
    | nil => rfl
    | cons gain gains => exact congrArg (· + 1) (ih gains)

theorem setSubMixGainsLengths (subMixes : List SubMix) (gains : List MixGainParamDefinition) :
    (setSubMixGains subMixes gains).map (·.elements.length) = subMixes.map (·.elements.length) := by
  induction subMixes generalizing gains with
  | nil => rfl
  | cons subMix subMixes ih =>
    unfold setSubMixGains
    rw [List.map_cons, List.map_cons, ih]
    exact congrArg (· :: _) (setElementGainsLength subMix.elements gains)

theorem gainsLength (presentation : MixPresentation) :
    presentation.gains.length = ((presentation.subMixes.map (·.elements.length)).map (· + 1)).sum := by
  rw [gainsAre, List.length_flatMap, List.map_map]
  exact congrArg List.sum (List.map_congr_left fun subMix _ => subMixGainsLength subMix)

theorem setGainsLength (presentation : MixPresentation) (gains : List MixGainParamDefinition) :
    (presentation.setGains gains).gains.length = presentation.gains.length := by
  rw [gainsLength, gainsLength]
  exact congrArg (fun lengths : List Nat => (lengths.map (· + 1)).sum) (setSubMixGainsLengths presentation.subMixes gains)

structure LoweredPresentation (declaration : MixPresentationDeclaration) (index : Nat) (presentation : MixPresentation) :
    Prop where
  small : index ≤ u32Max
  id : presentation.mixPresentationId = UInt32.ofNat index
  same : presentation.anonymous = declaration.presentation.anonymous
  references : presentation.references = handleIds declaration.audioElements
  gains : gainIds presentation.gains = handleIds declaration.parameters

theorem loweredPresentation {declaration : MixPresentationDeclaration} {index : Nat} {presentation : MixPresentation}
    (ok : lowerMixPresentation declaration index = .ok presentation)
    (references : (declaration.presentation.subMixes.map (·.elements.length)).sum = declaration.audioElements.length)
    (parameters : declaration.parameters.length = declaration.presentation.gains.length) :
    LoweredPresentation declaration index presentation := by
  obtain ⟨subMixes, each, ok⟩ := exceptBindOk ok
  obtain ⟨_, id, ok⟩ := exceptBindOk ok
  cases ok
  obtain ⟨small, rfl⟩ := wireIdOk.mp id
  have lowered := loweredSubMixes each
  refine ⟨small, rfl, ?_, ?_, ?_⟩
  · simp only [MixPresentation.anonymous, lowered.same]
  · rw [← List.take_length (l := declaration.audioElements), ← references]
    exact lowered.references
  · rw [← List.take_length (l := declaration.parameters), parameters]
    exact lowered.gains

namespace Built

variable {b : EncoderBuilder} {encoder : Encoder} {manifest : IdManifest}

theorem lowering (built : Built b encoder manifest) :
    lowerEach lowerCodecConfig b.codecConfigs 0 = .ok encoder.descriptors.codecConfigs ∧
    lowerEach lowerAudioElement b.audioElements 0 = .ok encoder.descriptors.audioElements ∧
    lowerEach lowerMixPresentation b.resolved.mixPresentations 0 = .ok encoder.descriptors.mixPresentations := by
  have lowered := built.lowered
  unfold EncoderBuilder.lowerDescriptors at lowered
  obtain ⟨configs, first, lowered⟩ := exceptBindOk lowered
  obtain ⟨elements, second, lowered⟩ := exceptBindOk lowered
  obtain ⟨presentations, third, lowered⟩ := exceptBindOk lowered
  injection lowered with same
  injection same with header sameConfigs sameElements samePresentations
  exact ⟨sameConfigs ▸ first, sameElements ▸ second, samePresentations ▸ third⟩

theorem config (built : Built b encoder manifest) {i : Nat} {config : CodecConfig}
    (at' : b.codecConfigs[i]? = some config) : i ≤ u32Max ∧
      encoder.descriptors.codecConfigs[i]? = some { config with codecConfigId := UInt32.ofNat i } := by
  obtain ⟨v, here, lowered⟩ := (lowerEachAt built.lowering.1).2 i config at'
  obtain ⟨_, id, lowered⟩ := exceptBindOk lowered
  rw [Nat.zero_add] at id
  obtain ⟨small, rfl⟩ := wireIdOk.mp id
  cases lowered
  exact ⟨small, here⟩

theorem element (built : Built b encoder manifest) {i : Nat} {declaration : AudioElementDeclaration}
    (at' : b.audioElements[i]? = some declaration) : i ≤ u32Max ∧
      encoder.descriptors.audioElements[i]? = some (declaration.lowered i) := by
  obtain ⟨v, here, lowered⟩ := (lowerEachAt built.lowering.2.1).2 i declaration at'
  rw [Nat.zero_add] at lowered
  obtain ⟨_, small, _, rfl⟩ := lowerAudioElementOk.mp lowered
  exact ⟨small, here⟩

theorem presentation (built : Built b encoder manifest) {i : Nat} {declaration : MixPresentationDeclaration}
    (at' : b.mixPresentations[i]? = some declaration) : ∃ presentation,
      encoder.descriptors.mixPresentations[i]? = some presentation ∧
        LoweredPresentation (b.resolvedPresentation declaration) i presentation := by
  have among := List.mem_of_getElem? at'
  have resolvedAt : b.resolved.mixPresentations[i]? = some (b.resolvedPresentation declaration) := by
    rw [b.resolvedAt, at', Option.map_some]
  obtain ⟨presentation, here, lowered⟩ := (lowerEachAt built.lowering.2.2).2 i _ resolvedAt
  rw [Nat.zero_add] at lowered
  have checked := built.checked.presentations _ (List.mem_of_getElem? resolvedAt)
  refine ⟨presentation, here, loweredPresentation lowered checked.count ?_⟩
  exact (built.parameters.counts declaration among).trans (setGainsLength declaration.presentation _).symm

end Built

end Iamf.Wire
