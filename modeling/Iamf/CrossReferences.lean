import Iamf.RepeatedDescriptors

/-! References between the OBUs of a sequence, and the findings about those that lead nowhere. -/
namespace Iamf.Wire
open Bits BitString TapeCodec ReadTape

def undeclaredSubstream (frame : AudioFrame) : Finding :=
  .at "audio_substream_id"
    "audio_substream_id {} is not among the audio_substream_ids the referenced Audio Element declares"
    [.number frame.substreamId.toNat]

def referenceTemplates : List String :=
  ["audio element {} references codec_config_id {}, which no Codec Config in this sequence carries",
    "mix presentation {} references audio_element_id {}, which no Audio Element in this sequence carries",
    "audio_substream_id {} is not among the audio_substream_ids the referenced Audio Element declares",
    "parameter block references parameter_id {}, which no definition in this sequence carries"]

def aboutReference (finding : Finding) : Bool := referenceTemplates.contains finding.message.template

def Quiet (findings : List Finding) : Prop := ∀ finding ∈ findings, aboutReference finding = false

theorem quietFilter {findings : List Finding} (quiet : Quiet findings) :
    findings.filter aboutReference = [] :=
  List.filter_eq_nil_iff.mpr fun finding among => by rw [quiet finding among]; simp

@[simp] theorem quietNil : Quiet [] := fun _ among => nomatch among

@[simp] theorem quietAppend {xs ys : List Finding} : Quiet (xs ++ ys) ↔ Quiet xs ∧ Quiet ys := List.forall_mem_append

section

variable {path template : String} {args : List MessageArg} (other : referenceTemplates.contains template = false)
include other

theorem quietOne : Quiet [.at path template args] := fun _ among => List.mem_singleton.mp among ▸ other

theorem quietIf {broken : Bool} : Quiet (findingIf broken (.at path template args)) := by
  cases broken with
  | false => exact quietNil
  | true => exact quietOne other

theorem quietMap {T : Type} {items : List T} {args : T → List MessageArg} :
    Quiet (items.map fun item => .at path template (args item)) := by
  intro finding among
  obtain ⟨item, inside, rfl⟩ := List.mem_map.mp among
  exact other

end

theorem quietFlatMap {T : Type} {items : List T} {f : T → List Finding} (each : ∀ item ∈ items, Quiet (f item)) :
    Quiet (items.flatMap f) := by
  intro finding among
  obtain ⟨item, inside, here⟩ := List.mem_flatMap.mp among
  exact each item inside finding here

theorem quietHeader (header : IaSequenceHeader) : Quiet header.validate := by
  simp only [IaSequenceHeader.validate, quietAppend]
  exact ⟨⟨quietIf (by decide), quietIf (by decide)⟩, quietIf (by decide)⟩

theorem quietLpcm (lpcm : LpcmDecoderConfig) : Quiet (CodecConfig.validateLpcm lpcm) := by
  simp only [CodecConfig.validateLpcm, CodecConfig.findingUnless, quietAppend]
  exact ⟨⟨quietIf (by decide), quietIf (by simp [referenceTemplates])⟩, quietIf (by decide)⟩

theorem quietFlac (samples : UInt32) (flac : FlacDecoderConfig) : Quiet (CodecConfig.validateFlac samples flac) := by
  simp only [CodecConfig.validateFlac, CodecConfig.findingUnless, quietAppend]
  refine ⟨⟨⟨⟨⟨⟨⟨⟨⟨⟨⟨?_, ?_⟩, ?_⟩, ?_⟩, ?_⟩, ?_⟩, ?_⟩, ?_⟩, ?_⟩, ?_⟩, ?_⟩, ?_⟩
  all_goals exact quietIf (by decide)

theorem quietOpus (opus : OpusDecoderConfig) : Quiet (CodecConfig.validateOpus opus) := by
  simp only [CodecConfig.validateOpus, CodecConfig.findingUnless, quietAppend]
  refine ⟨⟨⟨⟨⟨?_, ?_⟩, ?_⟩, ?_⟩, ?_⟩, ?_⟩
  all_goals exact quietIf (by decide)

theorem quietAacLc (samples : UInt32) (aacLc : AacLcDecoderConfig) :
    Quiet (CodecConfig.validateAacLc samples aacLc) := by
  simp only [CodecConfig.validateAacLc, CodecConfig.findingUnless, quietAppend]
  refine ⟨⟨⟨⟨⟨⟨⟨⟨⟨⟨?_, ?_⟩, ?_⟩, ?_⟩, ?_⟩, ?_⟩, ?_⟩, ?_⟩, ?_⟩, ?_⟩, ?_⟩
  all_goals exact quietIf (by decide)

theorem quietCodecConfig (config : CodecConfig) : Quiet config.validate := by
  simp only [CodecConfig.validate, CodecConfig.findingUnless, quietAppend]
  refine ⟨⟨⟨quietIf (by decide), quietIf (by decide)⟩, ?_⟩, ?_⟩
  · cases config.decoderConfig with
    | lpcm lpcm => exact quietLpcm lpcm
    | flac flac => exact quietFlac _ flac
    | opus opus => exact quietOpus opus
    | aacLc aacLc => exact quietAacLc _ aacLc
    | raw _ _ => exact quietNil
  · split
    · exact quietNil
    · exact quietIf (by decide)

theorem quietReserved {value : UInt8} {field : String} {width : Nat}
    (other : referenceTemplates.contains (field ++ " is non-zero ({}) in its {}-bit reserved field") = false) :
    Quiet (reservedFinding value field width) := quietIf other

theorem quietDefinition (definition : ParamDefinition) : Quiet definition.validate := quietIf (by decide)

theorem quietParam (param : AudioElementParam) : Quiet (AudioElement.validateParam param) := by
  simp only [AudioElement.validateParam, quietAppend]
  refine ⟨?_, quietIf (by decide)⟩
  cases param with
  | demixing definition _ _ _ _ =>
    simp only [quietAppend]
    exact ⟨⟨quietDefinition definition, quietReserved (by decide)⟩, quietReserved (by decide)⟩
  | reconGain definition => exact quietDefinition definition
  | extension _ _ => exact quietNil

theorem quietLayer (layer : ChannelAudioLayerConfig) : Quiet (AudioElement.validateLayer layer) := by
  simp only [AudioElement.validateLayer, quietAppend]
  refine ⟨quietReserved (by decide), ?_⟩
  split
  · exact quietReserved (by decide)
  · exact quietNil

theorem quietAudioElement (element : AudioElement) : Quiet element.validate := by
  simp only [AudioElement.validate, quietAppend]
  refine ⟨⟨⟨⟨quietReserved (by decide), quietIf (by decide)⟩, ?_⟩, quietFlatMap fun param _ => quietParam param⟩,
    quietIf (by simp [referenceTemplates])⟩
  split
  · simp only [AudioElement.validateChannelBased, quietAppend]
    exact ⟨⟨⟨quietReserved (by decide), quietIf (by decide)⟩, quietIf (by decide)⟩,
      quietFlatMap fun layer _ => quietLayer layer⟩
  · exact quietNil

theorem quietSubMixElement (countLabel : Nat) (element : SubMixAudioElement) :
    Quiet (MixPresentation.validateElement countLabel element) := by
  simp only [MixPresentation.validateElement, quietAppend]
  refine ⟨⟨⟨quietReserved (by decide), ?_⟩, quietDefinition _⟩, quietIf (by decide)⟩
  split
  · exact quietOne (by decide)
  · exact quietNil

theorem quietLayout (layout : LayoutWithLoudness) : Quiet (MixPresentation.validateLayout layout) := by
  simp only [MixPresentation.validateLayout, quietAppend]
  refine ⟨quietReserved (by decide), ?_⟩
  split
  · exact quietMap (by simp [referenceTemplates])
  · exact quietNil

theorem quietSubMix (countLabel : Nat) (subMix : SubMix) :
    Quiet (MixPresentation.validateSubMix countLabel subMix) := by
  simp only [MixPresentation.validateSubMix, SubMix.validate, quietAppend]
  exact ⟨⟨⟨⟨quietIf (by simp [referenceTemplates]), quietIf (by decide)⟩,
    quietFlatMap fun element _ => quietSubMixElement countLabel element⟩, quietDefinition _⟩,
    quietFlatMap fun layout _ => quietLayout layout⟩

theorem quietMixPresentation (presentation : MixPresentation) : Quiet presentation.validate := by
  simp only [MixPresentation.validate, MixPresentation.validateAnnotations, MixPresentation.validateReferences,
    quietAppend]
  refine ⟨⟨⟨⟨⟨quietIf (by decide), quietMap ?_⟩, quietMap ?_⟩, ?_⟩, quietMap ?_⟩,
    quietFlatMap fun subMix _ => quietSubMix _ subMix⟩
  · simp [referenceTemplates]
  · simp [referenceTemplates]
  · unfold MixPresentation.validateSubMixCount
    split
    · exact quietNil
    · exact quietOne (by decide)
    · exact quietOne (by simp [referenceTemplates])
  · simp [referenceTemplates]

theorem quietParameterBlock (block : ParameterBlock) : Quiet block.validate := by
  refine quietFlatMap fun subblock _ => ?_
  cases subblock.data with
  | demixing data => exact quietAppend.mpr ⟨quietIf (by decide), quietIf (by decide)⟩
  | reconGain data =>
    refine quietFlatMap fun layer _ => ?_
    cases layer with
    | none => exact quietNil
    | some element => exact quietIf (by decide)
  | mixGain _ => exact quietNil
  | raw _ => exact quietNil

theorem quietFrame (frame : AudioFrame) (obuType : ObuType) : Quiet (frame.validate obuType) := quietIf (by decide)

theorem quietOwn (obu : SequenceObu) : Quiet obu.ownFindings := by
  cases obu with
  | iaSequenceHeader obu => exact quietHeader obu.payload
  | codecConfig obu => exact quietCodecConfig obu.payload
  | audioElement obu => exact quietAudioElement obu.payload
  | mixPresentation obu => exact quietMixPresentation obu.payload
  | parameterBlock obu => exact quietParameterBlock obu.payload
  | audioFrame obu => exact quietFrame obu.payload obu.header.obuType
  | _ => exact quietNil

section

variable (field : String) (other : referenceTemplates.contains
  (field ++ " {} appears at OBU indices {} and {}; lookup binds to index {}, the first in wire order") = false)
include other

theorem quietPush {index : Nat} {acc : List Finding × Seen} {id : UInt32} (quiet : Quiet acc.1) :
    Quiet (pushLaterDuplicate field index acc id).1 := quietAppend.mpr ⟨quiet, quietMap other⟩

theorem quietPushes {index : Nat} {acc : List Finding × Seen} (quiet : Quiet acc.1) (ids : List UInt32) :
    Quiet (ids.foldl (pushLaterDuplicate field index) acc).1 := by
  induction ids generalizing acc with
  | nil => exact quiet
  | cons id ids ih => exact ih (quietPush field other quiet)

end

theorem quietParameters {c : Census} (quiet : Quiet c.findings) (index : Nat) (registry : ParamDefinitionRegistry) :
    Quiet (c.observeParameterDuplicates index registry).findings := by
  have before : Quiet (c.findings, c.parameterIds).1 := quiet
  exact quietPushes "parameter_id" (by decide) before _

theorem quietObserve {c : Census} (quiet : Quiet c.findings) (index : Nat) (obu : SequenceObu) :
    Quiet (c.observe index obu).findings := by
  have both : Quiet (c.findings ++ obu.ownFindings) := quietAppend.mpr ⟨quiet, quietOwn obu⟩
  cases obu with
  | codecConfig obu => exact quietPush "codec_config_id" (by decide) both
  | audioElement obu =>
    have own : Quiet (c.findings ++ obu.payload.validate, c.elementIds).1 := both
    refine quietParameters ?_ _ _
    exact quietPush "audio_element_id" (by decide) own
  | mixPresentation obu =>
    have own : Quiet (c.findings ++ obu.payload.validate, c.presentationIds).1 := both
    refine quietParameters ?_ _ _
    exact quietPush "mix_presentation_id" (by decide) own
  | iaSequenceHeader obu => exact both
  | parameterBlock obu => exact both
  | audioFrame obu => exact both
  | _ => exact quiet

theorem quietCensus (s : ParsedSequence) : Quiet s.census.findings := by
  have run (entries : List (SequenceObu × Nat)) : ∀ c : Census, Quiet c.findings →
      Quiet (entries.foldl (fun c entry => c.observe entry.2 entry.1) c).findings := by
    induction entries with
    | nil => exact fun _ quiet => quiet
    | cons entry entries ih => exact fun c quiet => ih _ (quietObserve quiet _ _)
  exact run _ _ quietNil

theorem quietCompliance (primary additional : UInt8) (elements : List AudioElement)
    (presentations : List MixPresentation) : Quiet (complianceFindings primary additional elements presentations) := by
  simp only [complianceFindings]
  split
  · exact quietNil
  · exact quietAppend.mpr ⟨quietIf (by decide), quietIf (by decide)⟩

theorem quietAbove (unique : Nat) (needed primary : Profile) (primaryProfile : UInt8) :
    Quiet (aboveProfile unique needed primary primaryProfile) := quietIf (by simp [referenceTemplates])

theorem quietLimits (primary : UInt8) (elements : List AudioElement) :
    Quiet (sequenceLimitFindings primary elements) := by
  simp only [sequenceLimitFindings]
  split
  · exact quietNil
  split
  · exact quietAbove _ _ _ _
  split
  · exact quietAbove _ _ _ _
  · exact quietOne (by decide)
  · exact quietOne (by decide)
  · exact quietNil

theorem quietProfile (s : ParsedSequence) : Quiet s.profileFindings := by
  unfold ParsedSequence.profileFindings
  split
  · exact quietAppend.mpr ⟨quietCompliance _ _ _ _, quietLimits _ _⟩
  · exact quietNil

theorem quietScalable (id : UInt32) (subMix : SubMix) (element : Option AudioElement) :
    Quiet (scalableLayoutFinding id subMix element).toList := by
  simp only [scalableLayoutFinding]
  split
  · split
    · exact quietNil
    · exact quietOne (by simp [referenceTemplates])
  · exact quietNil

inductive Reference where
  | codecConfig (element : AudioElement)
  | audioElement (presentation : MixPresentation) (reference : SubMixAudioElement)
  | substream (frame : AudioFrame)
  | parameter (parameterId : UInt32)

def Reference.finding : Reference → Finding
  | .codecConfig element => unresolvedCodecConfig element
  | .audioElement presentation reference => unresolvedAudioElement presentation reference
  | .substream frame => undeclaredSubstream frame
  | .parameter parameterId => unresolvedParameter parameterId

def AudioElementParam.definition? : AudioElementParam → Option ParamDefinition
  | .demixing definition .. => some definition
  | .reconGain definition => some definition
  | .extension .. => none

def UngovernedParameterBlock.parameterId? (block : UngovernedParameterBlock) : Option UInt32 :=
  match readUleb128 (BitCursor.new block.payload) with
  | .ok parameterId _ => some parameterId
  | .error _ _ => none

namespace SequenceObu

def definedParameters : SequenceObu → List UInt32
  | .audioElement obu => (obu.payload.params.filterMap (·.definition?)).map (·.parameterId)
  | .mixPresentation obu => obu.payload.gains.map (·.definition.parameterId)
  | _ => []

def references : SequenceObu → List Reference
  | .audioElement obu => [.codecConfig obu.payload]
  | .mixPresentation obu => obu.payload.subMixes.flatMap fun subMix => subMix.elements.map (.audioElement obu.payload)
  | .parameterBlock obu => [.parameter obu.payload.parameterId]
  | .ungovernedParameterBlock obu => obu.parameterId?.toList.map .parameter
  | .audioFrame obu => [.substream obu.payload]
  | _ => []

def resolves (obu : SequenceObu) : Reference → Bool
  | .codecConfig element => obu.codecConfig?.any (·.codecConfigId == element.codecConfigId)
  | .audioElement _ reference => obu.audioElement?.any (·.audioElementId == reference.audioElementId)
  | .substream frame => obu.audioElement?.any (·.audioSubstreamIds.contains frame.substreamId)
  | .parameter parameterId => obu.definedParameters.contains parameterId

end SequenceObu

namespace ParsedSequence

def resolves (s : ParsedSequence) (reference : Reference) : Bool := s.obus.any (·.resolves reference)

def unresolved (s : ParsedSequence) : List Reference :=
  (s.obus.flatMap (·.references)).filter (!s.resolves ·)

-- what the second pass reports: a block read without a definition is not looked up again
def reported (s : ParsedSequence) (obu : SequenceObu) : List Reference :=
  match obu with
  | .ungovernedParameterBlock _ => obu.references
  | _ => obu.references.filter (!s.resolves ·)

end ParsedSequence

theorem findingAbout (reference : Reference) : aboutReference reference.finding = true := by
  cases reference with
  | codecConfig element =>
    simp [aboutReference, Reference.finding, unresolvedCodecConfig, Finding.at, referenceTemplates]
  | audioElement presentation reference =>
    simp [aboutReference, Reference.finding, unresolvedAudioElement, Finding.at, referenceTemplates]
  | substream frame => simp [aboutReference, Reference.finding, undeclaredSubstream, Finding.at, referenceTemplates]
  | parameter id => simp [aboutReference, Reference.finding, unresolvedParameter, Finding.at, referenceTemplates]

theorem filterFindings (references : List Reference) :
    (references.map Reference.finding).filter aboutReference = references.map Reference.finding := by
  refine List.filter_eq_self.mpr fun finding among => ?_
  obtain ⟨reference, _, rfl⟩ := List.mem_map.mp among
  exact findingAbout reference

theorem observeIds (registry : ParamDefinitionRegistry) (obu : SequenceObu) :
    (registry.observeObu obu).ids = registry.ids ++ obu.definedParameters := by
  cases obu with
  | audioElement obu =>
    have params (present : List Bool) (params : List AudioElementParam) (registry : ParamDefinitionRegistry) :
        (params.foldl (ParamDefinitionRegistry.observeParam present) registry).ids =
          registry.ids ++ (params.filterMap (·.definition?)).map (·.parameterId) := by
      induction params generalizing registry with
      | nil => exact (List.append_nil _).symm
      | cons param params ih =>
        rw [List.foldl_cons, ih]
        cases param <;> simp [ParamDefinitionRegistry.observeParam, ParamDefinitionRegistry.ids,
          ParamDefinitionRegistry.register, AudioElementParam.definition?]
    exact params _ _ _
  | mixPresentation obu =>
    change (registry.observeMixPresentation obu.payload).ids = _
    rw [ParamDefinitionRegistry.ids, observeMixAppends, List.map_append, List.map_map]
    rfl
  | _ => exact (List.append_nil _).symm

theorem observedIds (obus : List SequenceObu) (registry : ParamDefinitionRegistry) :
    (obus.foldl ParamDefinitionRegistry.observeObu registry).ids =
      registry.ids ++ obus.flatMap (·.definedParameters) := by
  induction obus generalizing registry with
  | nil => exact (List.append_nil _).symm
  | cons obu obus ih => rw [List.foldl_cons, ih, observeIds, List.flatMap_cons, List.append_assoc]

theorem getDefined (registry : ParamDefinitionRegistry) (id : UInt32) :
    (registry.get id).isSome = registry.ids.contains id := by
  rw [ParamDefinitionRegistry.get, List.isSome_find?, ParamDefinitionRegistry.ids, Bool.eq_iff_iff]
  simp

theorem censusDefines (s : ParsedSequence) (id : UInt32) :
    (s.census.registry.get id).isNone = !s.resolves (.parameter id) := by
  rw [← Option.not_isSome, getDefined, (censusCounts s).registry, observedIds, Bool.eq_iff_iff]
  simp [ParsedSequence.resolves, SequenceObu.resolves, ParamDefinitionRegistry.ids, ParamDefinitionRegistry.new]

section

variable (s : ParsedSequence)

theorem reportedEach {T : Type} (items : List T) (reference : T → Reference) :
    items.flatMap (fun item => findingIf (!s.resolves (reference item)) (reference item).finding) =
      ((items.map reference).filter (!s.resolves ·)).map Reference.finding := by
  induction items with
  | nil => rfl
  | cons item items ih =>
    rw [List.flatMap_cons, ih, List.map_cons, List.filter_cons]
    cases s.resolves (reference item) <;> rfl

theorem reportedOne (reference : Reference) : findingIf (!s.resolves reference) reference.finding =
    ([reference].filter (!s.resolves ·)).map Reference.finding := by
  simpa using reportedEach s [reference] id

theorem resolvesCodecConfig (element : AudioElement) :
    s.codecConfigs.any (·.codecConfigId == element.codecConfigId) = s.resolves (.codecConfig element) :=
  List.any_filterMap ..

theorem resolvesAudioElement (presentation : MixPresentation) (reference : SubMixAudioElement) :
    s.audioElements.any (·.audioElementId == reference.audioElementId) =
      s.resolves (.audioElement presentation reference) := List.any_filterMap ..

theorem resolvesSubstream (frame : AudioFrame) :
    s.audioElements.any (·.audioSubstreamIds.contains frame.substreamId) = s.resolves (.substream frame) :=
  List.any_filterMap ..

theorem referenceFindingsReported (obu : SequenceObu) :
    (s.referenceFindings obu).filter aboutReference = (s.reported obu).map Reference.finding := by
  cases obu with
  | audioElement obu =>
    have found := reportedOne s (.codecConfig obu.payload)
    rw [ParsedSequence.referenceFindings, resolvesCodecConfig]
    exact (congrArg (List.filter aboutReference) found).trans (filterFindings _)
  | mixPresentation obu =>
    change _ = ((obu.payload.subMixes.flatMap fun subMix =>
      subMix.elements.map (.audioElement obu.payload)).filter (!s.resolves ·)).map Reference.finding
    rw [ParsedSequence.referenceFindings, List.filter_flatMap, List.filter_flatMap, List.map_flatMap]
    congr 1
    funext subMix
    have found := reportedEach s subMix.elements (.audioElement obu.payload)
    simp only [List.filter_append, quietFilter (quietScalable _ _ _), List.append_nil,
      resolvesAudioElement s obu.payload]
    exact (congrArg (List.filter aboutReference) found).trans (filterFindings _)
  | parameterBlock obu =>
    have found := reportedOne s (.parameter obu.payload.parameterId)
    rw [ParsedSequence.referenceFindings, censusDefines]
    exact (congrArg (List.filter aboutReference) found).trans (filterFindings _)
  | ungovernedParameterBlock block =>
    simp only [ParsedSequence.referenceFindings, ParsedSequence.reported, SequenceObu.references,
      UngovernedParameterBlock.parameterId?]
    cases readUleb128 (BitCursor.new block.payload) with
    | ok id _ => exact filterFindings [.parameter id]
    | error _ _ => rfl
  | audioFrame obu =>
    have found := reportedOne s (.substream obu.payload)
    have undeclared : obu.payload.validateAgainstElement [] = [undeclaredSubstream obu.payload] := rfl
    rw [ParsedSequence.referenceFindings, resolvesSubstream, undeclared]
    refine Eq.trans ?_ ((congrArg (List.filter aboutReference) found).trans (filterFindings _))
    cases s.resolves (.substream obu.payload) <;> rfl
  | _ => rfl

theorem validateReported : s.validate.filter aboutReference =
    (s.obus.flatMap s.reported).map Reference.finding := by
  rw [ParsedSequence.validate, List.filter_append, List.filter_append, quietFilter (quietCensus s),
    quietFilter (quietProfile s), List.append_nil, List.nil_append, List.filter_flatMap, List.map_flatMap]
  congr 1
  funext obu
  exact referenceFindingsReported s obu

theorem reportedUnresolved : (s.obus.flatMap s.reported).filter (!s.resolves ·) = s.unresolved := by
  rw [ParsedSequence.unresolved, List.filter_flatMap, List.filter_flatMap]
  congr 1
  funext obu
  cases obu <;> simp [ParsedSequence.reported, List.filter_filter]

/-- The findings are those of the unresolved references unless a block is reported that a definition resolves. -/
theorem exactlyUnresolved : s.validate.filter aboutReference = s.unresolved.map Reference.finding ↔
    ∀ block, .ungovernedParameterBlock block ∈ s.obus → ∀ id, block.parameterId? = some id →
      s.resolves (.parameter id) = false := by
  rw [validateReported, ← reportedUnresolved]
  constructor
  · intro exact block among id read
    have lengths := congrArg List.length exact
    rw [List.length_map, List.length_map, eq_comm, List.length_filter_eq_length_iff] at lengths
    have here : Reference.parameter id ∈ s.obus.flatMap s.reported :=
      List.mem_flatMap.mpr ⟨_, among, by simp [ParsedSequence.reported, SequenceObu.references, read]⟩
    simpa using lengths _ here
  · intro late
    rw [List.filter_eq_self.mpr]
    intro reference among
    obtain ⟨obu, inside, here⟩ := List.mem_flatMap.mp among
    cases obu with
    | ungovernedParameterBlock block =>
      simp only [ParsedSequence.reported, SequenceObu.references, List.mem_map, Option.mem_toList] at here
      obtain ⟨id, read, rfl⟩ := here
      rw [late block inside id read]
      rfl
    | _ => exact (List.mem_filter.mp here).2

end

/-- A Parameter Block stands before the first OBU that defines its identifier. -/
def ParsedSequence.DefinedLate (s : ParsedSequence) : Prop :=
  ∃ before block after id, s.obus = before ++ .ungovernedParameterBlock block :: after ∧
    block.parameterId? = some id ∧ ∃ obu ∈ after, id ∈ obu.definedParameters

theorem sourceUngoverned {r last : ParamDefinitionRegistry} {bits : List Bool}
    {before after : List SequenceObu} {block : UngovernedParameterBlock}
    (source : SequenceSource r bits (before ++ .ungovernedParameterBlock block :: after) last) :
    ∃ id, block.parameterId? = some id ∧ id ∉ (before.foldl ParamDefinitionRegistry.observeObu r).ids := by
  induction before generalizing r bits with
  | nil =>
    cases source with
    | cons _ decodes _ =>
      cases decodes with
      | @ungovernedParameterBlock id rest type inspected ungoverned =>
        refine ⟨id, ?_, ?_⟩
        · unfold parsePayload at inspected
          rw [UngovernedParameterBlock.parameterId?]
          split at inspected
          · cases inspected
          · rename_i found behind read
            split at inspected
            · cases inspected
            · cases inspected
              rw [read]
        · rw [getDefined] at ungoverned
          simpa using ungoverned
  | cons obu before ih =>
    cases source with
    | cons _ decodes tail =>
      rw [decodesObserve decodes] at tail
      exact ih tail

theorem crossReferencesExact {b : Bytes} {s : ParsedSequence} (ok : parseSequence b = .ok s) :
    s.validate.filter aboutReference = s.unresolved.map Reference.finding ↔ ¬ s.DefinedLate := by
  have parsed : parseSequence b = .ok ⟨s.obus⟩ := ok
  obtain ⟨last, source⟩ := parseSequenceOk.mp parsed
  rw [exactlyUnresolved]
  constructor
  · rintro exact ⟨before, block, after, id, split, read, obu, behind, defines⟩
    have among : .ungovernedParameterBlock block ∈ s.obus := by rw [split]; simp
    have found := List.any_eq_false.mp (exact block among id read) obu (by rw [split]; simp [behind])
    exact found (by simpa [SequenceObu.resolves] using defines)
  · intro early block among id read
    obtain ⟨before, after, split⟩ := List.append_of_mem among
    rw [split] at source
    obtain ⟨id', read', fresh⟩ := sourceUngoverned source
    cases read.symm.trans read'
    rw [observedIds] at fresh
    refine List.any_eq_false.mpr fun obu inside defines => ?_
    have known : id ∈ obu.definedParameters := by simpa [SequenceObu.resolves] using defines
    rw [split] at inside
    rcases List.mem_append.mp inside with earlier | later
    · exact fresh (List.mem_append_right _ (List.mem_flatMap.mpr ⟨obu, earlier, known⟩))
    · rcases List.mem_cons.mp later with rfl | later
      · cases known
      · exact early ⟨before, block, after, id, split, read, obu, later, known⟩

def definedBehind : ParsedSequence :=
  ⟨[.ungovernedParameterBlock ⟨.new .parameterBlock, [7]⟩,
    .audioElement ⟨.new .audioElement, ⟨1, 0, .reserved 2 [], 1, [], [.reconGain (.mode1 7 1)], []⟩, []⟩]⟩

theorem crossReferencesExactBehind : definedBehind.validate.filter aboutReference =
    definedBehind.unresolved.map Reference.finding ↔ ¬ definedBehind.DefinedLate :=
  crossReferencesExact (b := [0x18, 1, 7, 0x08, 9, 1, 0x40, 1, 0, 1, 2, 7, 1, 0x80]) (by decide +kernel)

theorem definedBehindReported :
    parseSequence [0x18, 1, 7, 0x08, 9, 1, 0x40, 1, 0, 1, 2, 7, 1, 0x80] = .ok definedBehind ∧
    unresolvedParameter 7 ∈ definedBehind.validate ∧ definedBehind.resolves (.parameter 7) = true ∧
    definedBehind.validate.filter aboutReference ≠ definedBehind.unresolved.map Reference.finding := by
  decide +kernel

end Iamf.Wire
