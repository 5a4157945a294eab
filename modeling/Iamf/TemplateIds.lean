import Iamf.RejectedPushes

/-! The ids a caller stores in the templates are replaced: declarations that differ in nothing else
build the same descriptors, and the writers started on these behave alike. -/
namespace Iamf.Wire
open Bits BitString TapeCodec

def Handle.anonymous {kind : HandleKind} (handle : Handle kind) : Handle kind := ⟨0, handle.index⟩

def AudioElementDeclaration.anonymous (d : AudioElementDeclaration) : AudioElementDeclaration :=
  ⟨d.codecConfig.anonymous, d.substreams.map (·.anonymous), d.element.anonymous⟩

def MixPresentationDeclaration.anonymous (d : MixPresentationDeclaration) : MixPresentationDeclaration :=
  ⟨d.audioElements.map (·.anonymous), d.parameters.map (·.anonymous), d.presentation.anonymous⟩

def ParameterDeclaration.anonymous (d : ParameterDeclaration) : ParameterDeclaration :=
  ⟨d.implicitId.map fun _ => 0, d.gain.anonymous⟩

def EncoderBuilder.anonymous (b : EncoderBuilder) : EncoderBuilder where
  generation := 0
  codecConfigs := b.codecConfigs.map (·.anonymous)
  audioElements := b.audioElements.map (·.anonymous)
  mixPresentations := b.mixPresentations.map (·.anonymous)
  substreams := b.substreams.map (Option.map fun _ => 0)
  parameters := b.parameters.map (·.anonymous)

theorem lowerEachErased {T U : Type} {lower : T → Nat → Except Error U} {erase : T → T}
    (blind : ∀ item index, lower (erase item) index = lower item index) (items : List T) (start : Nat) :
    lowerEach lower (items.map erase) start = lowerEach lower items start := by
  induction items generalizing start with
  | nil => rfl
  | cons item items ih =>
    rw [List.map_cons, lowerEach, lowerEach, blind]
    simp only [ih]

theorem handleIdsAnonymous {kind : HandleKind} (handles : List (Handle kind)) :
    (handles.map (·.anonymous)).mapM (fun handle => wireId handle.index) =
      handles.mapM fun handle => wireId handle.index := by
  rw [List.mapM_map]
  rfl

theorem referenceAnonymous (handles : List AudioElementHandle) :
    referenceWireId (handles.map (·.anonymous)).head? = referenceWireId handles.head? := by
  cases handles <;> rfl

theorem parameterAnonymous (handles : List ParameterHandle) :
    parameterWireId (handles.map (·.anonymous)).head? = parameterWireId handles.head? := by
  cases handles <;> rfl

theorem lowerElementsAnonymous (elements : List SubMixAudioElement) (handles : List AudioElementHandle)
    (parameters : List ParameterHandle) :
    lowerElements (elements.map (·.anonymous)) (handles.map (·.anonymous)) (parameters.map (·.anonymous)) =
      lowerElements elements handles parameters := by
  induction elements generalizing handles parameters with
  | nil => rfl
  | cons element elements ih =>
    rw [List.map_cons, lowerElements, lowerElements, referenceAnonymous, parameterAnonymous, ← List.map_tail,
      ← List.map_tail, ih]
    rfl

theorem lowerSubMixesAnonymous (subMixes : List SubMix) (handles : List AudioElementHandle)
    (parameters : List ParameterHandle) :
    lowerSubMixes (subMixes.map (·.anonymous)) (handles.map (·.anonymous)) (parameters.map (·.anonymous)) =
      lowerSubMixes subMixes handles parameters := by
  induction subMixes generalizing handles parameters with
  | nil => rfl
  | cons subMix subMixes ih =>
    have length : subMix.anonymous.elements.length = subMix.elements.length := List.length_map _
    have head : lowerSubMix subMix.anonymous (handles.map (·.anonymous)) (parameters.map (·.anonymous)) =
        lowerSubMix subMix handles parameters := by
      unfold lowerSubMix
      rw [length, ← List.map_drop, parameterAnonymous]
      exact congrArg (· >>= _) (lowerElementsAnonymous subMix.elements handles parameters)
    rw [List.map_cons, lowerSubMixes, lowerSubMixes, head, length, ← List.map_drop, ← List.map_drop, ih]

theorem lowerConfigAnonymous (config : CodecConfig) (index : Nat) :
    lowerCodecConfig config.anonymous index = lowerCodecConfig config index := rfl

theorem lowerElementAnonymous (d : AudioElementDeclaration) (index : Nat) :
    lowerAudioElement d.anonymous index = lowerAudioElement d index := by
  unfold lowerAudioElement
  have same := handleIdsAnonymous d.substreams
  simp only [AudioElementDeclaration.anonymous, Handle.anonymous, AudioElement.anonymous] at same ⊢
  rw [same]

theorem lowerPresentationAnonymous (d : MixPresentationDeclaration) (index : Nat) :
    lowerMixPresentation d.anonymous index = lowerMixPresentation d index := by
  unfold lowerMixPresentation
  have same := lowerSubMixesAnonymous d.presentation.subMixes d.audioElements d.parameters
  simp only [MixPresentationDeclaration.anonymous, MixPresentation.anonymous] at same ⊢
  rw [same]

theorem setElementGainsAnonymous (elements : List SubMixAudioElement) (gains : List MixGainParamDefinition) :
    (setElementGains elements gains).map (·.anonymous) =
      (setElementGains (elements.map (·.anonymous)) (gains.map (·.anonymous))).map (·.anonymous) := by
  induction elements generalizing gains with
  | nil => cases gains <;> rfl
  | cons element elements ih =>
    cases gains with
    | nil =>
      rw [List.map_nil, setElementGains, setElementGains, List.map_map]
      · exact List.map_congr_left fun element _ => rfl
      · simp
      · simp
    | cons gain gains =>
      rw [List.map_cons, List.map_cons, setElementGains, setElementGains, List.map_cons, List.map_cons, ih]
      rfl

theorem setSubMixGainsAnonymous (subMixes : List SubMix) (gains : List MixGainParamDefinition) :
    (setSubMixGains subMixes gains).map (·.anonymous) =
      (setSubMixGains (subMixes.map (·.anonymous)) (gains.map (·.anonymous))).map (·.anonymous) := by
  induction subMixes generalizing gains with
  | nil => rfl
  | cons subMix subMixes ih =>
    have length : subMix.anonymous.elements.length = subMix.elements.length := List.length_map _
    have output : ((gains.drop subMix.elements.length).headD subMix.outputMixGain).anonymous =
        (((gains.map (·.anonymous)).drop subMix.elements.length).headD subMix.outputMixGain.anonymous).anonymous := by
      rw [← List.map_drop]
      cases gains.drop subMix.elements.length <;> rfl
    have head : (subMix.setGains gains).anonymous = (subMix.anonymous.setGains (gains.map (·.anonymous))).anonymous := by
      unfold SubMix.setGains SubMix.anonymous
      simp only [List.length_map, ← setElementGainsAnonymous, output]
    rw [List.map_cons, setSubMixGains, setSubMixGains, List.map_cons, List.map_cons, head, length, ← List.map_drop, ih]

theorem declaredGainAnonymous (b : EncoderBuilder) (handle : ParameterHandle) :
    b.anonymous.declaredGain handle.anonymous = (b.declaredGain handle).map (·.anonymous) := by
  unfold EncoderBuilder.declaredGain
  change ((b.parameters.map (·.anonymous))[handle.index]?).map (·.gain) = _
  rw [List.getElem?_map, Option.map_map, Option.map_map]
  rfl

theorem resolvedAnonymous (b : EncoderBuilder) (d : MixPresentationDeclaration) :
    (b.resolvedPresentation d).anonymous = (b.anonymous.resolvedPresentation d.anonymous).anonymous := by
  have gains : (d.parameters.map (·.anonymous)).filterMap b.anonymous.declaredGain =
      (d.parameters.filterMap b.declaredGain).map (·.anonymous) := by
    rw [List.filterMap_map, List.map_filterMap]
    exact List.filterMap_congr fun handle _ => declaredGainAnonymous b handle
  unfold EncoderBuilder.resolvedPresentation MixPresentationDeclaration.anonymous MixPresentation.setGains
    MixPresentation.anonymous
  simp only [gains, ← setSubMixGainsAnonymous, List.map_map]
  rfl

theorem resolvedSame {b b' : EncoderBuilder} (same : b.anonymous = b'.anonymous) :
    b.resolved.mixPresentations.map (·.anonymous) = b'.resolved.mixPresentations.map (·.anonymous) := by
  have through (c : EncoderBuilder) : c.resolved.mixPresentations.map (·.anonymous) =
      c.anonymous.mixPresentations.map fun d => (c.anonymous.resolvedPresentation d).anonymous := by
    change (c.mixPresentations.map _).map _ = (c.mixPresentations.map _).map _
    rw [List.map_map, List.map_map]
    exact List.map_congr_left fun d _ => resolvedAnonymous c d
  rw [through, through, same]

theorem lowerSame {T U : Type} {lower : T → Nat → Except Error U} {erase : T → T}
    (blind : ∀ item index, lower (erase item) index = lower item index) {items items' : List T} {out out' : List U}
    (same : items.map erase = items'.map erase) (ok : lowerEach lower items 0 = .ok out)
    (ok' : lowerEach lower items' 0 = .ok out') : out' = out := by
  rw [← lowerEachErased blind, same, lowerEachErased blind, ok'] at ok
  exact Except.ok.inj ok

def Handle.ofGeneration {kind : HandleKind} (generation : UInt64) (handle : Handle kind) : Handle kind :=
  ⟨generation, handle.index⟩

def IdManifest.ofGeneration (generation : UInt64) (m : IdManifest) : IdManifest where
  codecConfigs := m.codecConfigs.map fun entry => (entry.1.ofGeneration generation, entry.2)
  audioElements := m.audioElements.map fun entry => (entry.1.ofGeneration generation, entry.2)
  mixPresentations := m.mixPresentations.map fun entry => (entry.1.ofGeneration generation, entry.2)
  substreamIds := m.substreamIds.map fun entry => (entry.1.ofGeneration generation, entry.2)
  parameterIds := m.parameterIds.map fun entry => (entry.1.ofGeneration generation, entry.2)
  elementSubstreams := m.elementSubstreams.map fun entry =>
    (entry.1.ofGeneration generation, entry.2.map (·.ofGeneration generation))
  presentationParameters := m.presentationParameters.map fun entry =>
    (entry.1.ofGeneration generation, entry.2.map (·.ofGeneration generation))
  sequenceProfile := m.sequenceProfile

theorem issuedOfGeneration (kind : HandleKind) (generation generation' : UInt64) (length : Nat) :
    (issuedIds kind generation length).map (fun entry => (entry.1.ofGeneration generation', entry.2)) =
      issuedIds kind generation' length := by
  rw [issuedIds, List.map_map]
  rfl

theorem sameLength {T : Type} {erase : T → T} {xs ys : List T} (same : xs.map erase = ys.map erase) :
    xs.length = ys.length := by
  have lengths := congrArg List.length same
  rwa [List.length_map, List.length_map] at lengths

theorem handlesOfGeneration {kind : HandleKind} {handles handles' : List (Handle kind)} {generation : UInt64}
    (same : handles.map (·.anonymous) = handles'.map (·.anonymous))
    (own : ∀ handle ∈ handles', handle.generation = generation) :
    handles' = handles.map (·.ofGeneration generation) := by
  have positions : handles'.map (·.ofGeneration generation) = handles.map (·.ofGeneration generation) := by
    have moved (hs : List (Handle kind)) : hs.map (·.ofGeneration generation) =
        (hs.map (·.anonymous)).map (·.ofGeneration generation) := by
      rw [List.map_map]
      rfl
    rw [moved, moved handles, same]
  rw [← positions]
  have kept : handles'.map (·.ofGeneration generation) = handles'.map id :=
    List.map_congr_left fun handle among => by rw [← own handle among]; rfl
  rw [kept, List.map_id]

theorem usesOfGeneration (kind : HandleKind) (generation : UInt64) {generation' : UInt64} {use : HandleKind} {T : Type}
    {handlesOf : T → List (Handle use)} {items items' : List T}
    (same : items.map (fun item => (handlesOf item).map (·.anonymous)) =
      items'.map fun item => (handlesOf item).map (·.anonymous))
    (own : ∀ item ∈ items', ∀ handle ∈ handlesOf item, handle.generation = generation') :
    (items'.zipIdx.map fun (item, index) => ((⟨generation', index⟩ : Handle kind), handlesOf item)) =
      (items.zipIdx.map fun (item, index) => ((⟨generation, index⟩ : Handle kind), handlesOf item)).map
        fun entry => (entry.1.ofGeneration generation', entry.2.map (·.ofGeneration generation')) := by
  refine List.ext_getElem? fun i => ?_
  have at' := congrArg (fun list => list[i]?) same
  simp only [List.getElem?_map, List.getElem?_zipIdx, Option.map_map, Nat.zero_add] at at' ⊢
  cases found : items'[i]? with
  | none =>
    rw [found, Option.map_none, Option.map_eq_none_iff] at at'
    rw [at']
    rfl
  | some item' =>
    rw [found, Option.map_some] at at'
    obtain ⟨item, here, equal⟩ := Option.map_eq_some_iff.mp at'
    rw [here]
    have handles := handlesOfGeneration equal (own item' (List.mem_of_getElem? found))
    simp only [Option.map_some, Function.comp_apply, handles]
    rfl

namespace Built

variable {b b' : EncoderBuilder} {encoder encoder' : Encoder} {manifest manifest' : IdManifest}

theorem descriptorsSame (same : b.anonymous = b'.anonymous) (built : Built b encoder manifest)
    (built' : Built b' encoder' manifest') :
    encoder'.descriptors = encoder.descriptors ∧ manifest'.sequenceProfile = manifest.sequenceProfile := by
  have presentations := resolvedSame same
  injection same with _ configs elements
  have sameConfigs := lowerSame lowerConfigAnonymous configs built.lowering.1 built'.lowering.1
  have sameElements := lowerSame lowerElementAnonymous elements built.lowering.2.1 built'.lowering.2.1
  have samePresentations := lowerSame lowerPresentationAnonymous presentations built.lowering.2.2 built'.lowering.2.2
  have selected := built'.selected
  rw [sameElements, samePresentations, built.selected] at selected
  have profile : manifest'.sequenceProfile = manifest.sequenceProfile := (Prod.mk.inj (Except.ok.inj selected)).1.symm
  refine ⟨?_, profile⟩
  have header := built'.header
  rw [profile, ← built.header] at header
  obtain ⟨⟨h, c, e, p⟩, g⟩ := encoder
  obtain ⟨⟨h', c', e', p'⟩, g'⟩ := encoder'
  cases header
  cases sameConfigs
  cases sameElements
  cases samePresentations
  rfl

theorem manifestSame (same : b.anonymous = b'.anonymous) (built : Built b encoder manifest)
    (built' : Built b' encoder' manifest') : manifest' = manifest.ofGeneration b'.generation := by
  obtain ⟨_, profile⟩ := descriptorsSame same built built'
  obtain ⟨⟨c, _⟩, ⟨e, _⟩, ⟨p, _⟩, ⟨s, _⟩, ⟨q, _⟩, eu, pu⟩ := built.manifestIs
  obtain ⟨⟨c', _⟩, ⟨e', _⟩, ⟨p', _⟩, ⟨s', _⟩, ⟨q', _⟩, eu', pu'⟩ := built'.manifestIs
  have resolved := congrArg (List.map (·.parameters)) (resolvedSame same)
  injection same with _ configs elements presentations substreams parameters
  have uses := congrArg (List.map (·.substreams)) elements
  rw [List.map_map, List.map_map] at resolved uses
  have own (d : MixPresentationDeclaration) (among : d ∈ b'.resolved.mixPresentations) (handle : ParameterHandle)
      (used : handle ∈ d.parameters) : handle.generation = b'.generation := by
    obtain ⟨declaration, declared, rfl⟩ := List.mem_map.mp among
    exact (built'.parameterKnown declared used).1
  have elementUses := usesOfGeneration .audioElement b.generation uses fun d among handle used =>
    (built'.substreamKnown among used).1
  have presentationUses := usesOfGeneration .mixPresentation b.generation resolved own
  unfold IdManifest.ofGeneration
  obtain ⟨mc, me, mp, ms, mq, meu, mpu, mProfile⟩ := manifest'
  simp only at c' e' p' s' q' eu' pu' profile
  rw [c, e, p, s, q, eu, pu, issuedOfGeneration, issuedOfGeneration, issuedOfGeneration, issuedOfGeneration,
    issuedOfGeneration, sameLength configs, sameLength elements, sameLength presentations, sameLength substreams,
    sameLength parameters, ← elementUses, ← presentationUses, c', e', p', s', q', eu', pu', profile]

end Built

section

variable (ρ : UInt64 → UInt64)

def Handle.renamed {kind : HandleKind} (handle : Handle kind) : Handle kind := ⟨ρ handle.generation, handle.index⟩

def TemporalUnitInput.renamed (input : TemporalUnitInput) : TemporalUnitInput where
  frames := input.frames.map fun entry => (entry.1.renamed ρ, entry.2)
  parameterBlocks := input.parameterBlocks.map fun submitted => ⟨submitted.parameter.renamed ρ, submitted.block⟩
  trimming := input.trimming

variable {ρ}

theorem renamedInjective (injective : Function.Injective ρ) (kind : HandleKind) :
    Function.Injective (Handle.renamed ρ : Handle kind → Handle kind) := by
  intro a b same
  injection same with generations indices
  cases a
  cases b
  cases injective generations
  cases indices
  rfl

theorem distinctRenamed (injective : Function.Injective ρ) (seen handles : List SubstreamHandle) :
    checkDistinctHandles (seen.map (·.renamed ρ)) (handles.map (·.renamed ρ)) = checkDistinctHandles seen handles := by
  induction handles generalizing seen with
  | nil => rfl
  | cons handle handles ih =>
    have known : (seen.map (·.renamed ρ)).contains (handle.renamed ρ) = seen.contains handle := by
      rw [Bool.eq_iff_iff, List.contains_iff_mem, List.contains_iff_mem]
      exact List.mem_map_of_injective (renamedInjective injective .substream)
    have behind := ih (seen ++ [handle])
    rw [List.map_append] at behind
    rw [List.map_cons, checkDistinctHandles, checkDistinctHandles, known]
    simp only [← behind]
    rfl

variable {encoder : Encoder} {generation : UInt64}

theorem ownRenamed {kind : HandleKind} (injective : Function.Injective ρ) (own : ρ encoder.generation = generation)
    (handle : Handle kind) : ((handle.renamed ρ).generation == generation) = (handle.generation == encoder.generation) := by
  rw [Bool.eq_iff_iff, beq_iff_eq, beq_iff_eq, ← own]
  exact injective.eq_iff

theorem lowerFrameRenamed (injective : Function.Injective ρ) (own : ρ encoder.generation = generation)
    (trimming : Option Trimming) (entry : (SubstreamHandle × FrameInput) × UInt32) :
    Encoder.lowerFrame ⟨encoder.descriptors, generation⟩ trimming ((entry.1.1.renamed ρ, entry.1.2), entry.2) =
      encoder.lowerFrame trimming entry := by
  unfold Encoder.lowerFrame Encoder.substreamId
  simp only [ownRenamed injective own]
  rfl

theorem lowerBlocksRenamed (injective : Function.Injective ρ) (own : ρ encoder.generation = generation)
    (definitions : ParamDefinitionRegistry) (ids : List UInt32) (blocks : List SubmittedParameterBlock) :
    Encoder.lowerParameterBlocks ⟨encoder.descriptors, generation⟩ definitions ids
        (blocks.map fun submitted => ⟨submitted.parameter.renamed ρ, submitted.block⟩) =
      encoder.lowerParameterBlocks definitions ids blocks := by
  induction blocks generalizing ids with
  | nil => rfl
  | cons submitted blocks ih =>
    have head : Encoder.lowerParameterBlock ⟨encoder.descriptors, generation⟩ definitions ids
        ⟨submitted.parameter.renamed ρ, submitted.block⟩ = encoder.lowerParameterBlock definitions ids submitted := by
      unfold Encoder.lowerParameterBlock Encoder.parameterId
      simp only [ownRenamed injective own]
      rfl
    rw [List.map_cons, Encoder.lowerParameterBlocks, Encoder.lowerParameterBlocks, head]
    simp only [ih]

theorem preflightRenamed (injective : Function.Injective ρ) (own : ρ encoder.generation = generation)
    (progress : TemporalProgress) (input : TemporalUnitInput) :
    Encoder.preflight ⟨encoder.descriptors, generation⟩ progress (input.renamed ρ) = encoder.preflight progress input := by
  have handles : (input.renamed ρ).frames.map (·.1) = (input.frames.map (·.1)).map (·.renamed ρ) := by
    rw [TemporalUnitInput.renamed, List.map_map, List.map_map]
    rfl
  have frames : ((input.renamed ρ).frames.zip encoder.declaredSubstreams).mapM
        (Encoder.lowerFrame ⟨encoder.descriptors, generation⟩ input.trimming) =
      (input.frames.zip encoder.declaredSubstreams).mapM (encoder.lowerFrame input.trimming) := by
    rw [TemporalUnitInput.renamed, List.zip_map_left, List.mapM_map]
    exact congrArg (fun step => List.mapM step _) (funext fun entry => lowerFrameRenamed injective own input.trimming entry)
  have lengths : (input.renamed ρ).frames.length = input.frames.length := List.length_map _
  have distinct : checkDistinctHandles [] ((input.frames.map (·.1)).map (·.renamed ρ)) =
      checkDistinctHandles [] (input.frames.map (·.1)) := distinctRenamed injective [] _
  have blocks : Encoder.lowerParameterBlocks ⟨encoder.descriptors, generation⟩ (.fromDescriptors encoder.descriptors) []
      (input.renamed ρ).parameterBlocks = encoder.lowerParameterBlocks (.fromDescriptors encoder.descriptors) []
      input.parameterBlocks := lowerBlocksRenamed injective own _ [] input.parameterBlocks
  have trimming : (input.renamed ρ).trimming = input.trimming := rfl
  have declared : Encoder.declaredSubstreams ⟨encoder.descriptors, generation⟩ = encoder.declaredSubstreams := rfl
  have advanced (trim : Option Trimming) : Encoder.advanceTrimming ⟨encoder.descriptors, generation⟩ progress trim =
      encoder.advanceTrimming progress trim := rfl
  unfold Encoder.preflight
  simp only [handles, lengths, distinct, trimming, declared, frames, advanced, blocks]

end

/-- What a caller sees of an encoder on a sink: whether it starts, the answer to each push and to
`finish`, and the sequence writer, which holds the sink, before and behind `finish`. -/
inductive Session (W : Sink) where
  | refused (e : Error) (sequence : SequenceWriter W)
  | ran (answers : List (Except Error Unit)) (pushed : SequenceWriter W) (finished : Except Error Unit)
      (closed : SequenceWriter W)

def EncodingWriter.session {W : Sink} (w : EncodingWriter W) (inputs : List TemporalUnitInput) : Session W :=
  let closed := outcome finish (w.after inputs)
  .ran (w.answers inputs) (w.after inputs).sequence closed.1 closed.2.sequence

def Encoder.session {W : Sink} (encoder : Encoder) (sink : W.State) (inputs : List TemporalUnitInput) : Session W :=
  match encoder.start sink with
  | .error e sequence => .refused e sequence
  | .ok w _ => w.session inputs

namespace EncodingWriter

variable {W : Sink}

def ofGeneration (generation : UInt64) (w : EncodingWriter W) : EncodingWriter W := { w with generation := generation }

variable {ρ : UInt64 → UInt64}

theorem pushRenamed (injective : Function.Injective ρ) {generation : UInt64} {w : EncodingWriter W}
    (own : ρ w.generation = generation) {input : TemporalUnitInput} {r : Except Error Unit × EncodingWriter W}
    (pushed : Pushed w input r) : Pushed (w.ofGeneration generation) (input.renamed ρ) (r.1, r.2.ofGeneration generation) := by
  have lowered : (w.ofGeneration generation).encoder.preflight w.progress (input.renamed ρ) =
      w.encoder.preflight w.progress input :=
    @preflightRenamed ρ w.encoder generation injective own w.progress input
  cases pushed with
  | stopped poisoned => exact .stopped poisoned
  | refused sound checked => exact .refused sound (lowered.trans checked)
  | failed sound checked sent => exact .failed sound (lowered.trans checked) sent
  | accepted sound checked sent => exact .accepted sound (lowered.trans checked) sent

theorem pushKeeps {w : EncodingWriter W} {input : TemporalUnitInput} {r : Except Error Unit × EncodingWriter W}
    (pushed : Pushed w input r) : r.2.descriptors = w.descriptors ∧ r.2.generation = w.generation := by
  cases pushed <;> exact ⟨rfl, rfl⟩

theorem pushesRenamed (injective : Function.Injective ρ) {generation : UInt64} (inputs : List TemporalUnitInput)
    {w : EncodingWriter W} (own : ρ w.generation = generation) :
    (w.ofGeneration generation).answers (inputs.map (·.renamed ρ)) = w.answers inputs ∧
      (w.ofGeneration generation).after (inputs.map (·.renamed ρ)) = (w.after inputs).ofGeneration generation := by
  induction inputs generalizing w with
  | nil => exact ⟨rfl, rfl⟩
  | cons input inputs ih =>
    have pushed := outcomePushed w input
    have head := pushedOutcome (pushRenamed injective own pushed)
    obtain ⟨tail, last⟩ := ih ((congrArg ρ (pushKeeps pushed).2).trans own)
    rw [List.map_cons, answers, answers, after, after, head]
    exact ⟨congrArg _ tail, last⟩

theorem finishOfGeneration (generation : UInt64) {w : EncodingWriter W} {r : Except Error Unit × EncodingWriter W}
    (finished : Finished w r) : Finished (w.ofGeneration generation) (r.1, r.2.ofGeneration generation) := by
  cases finished with
  | stopped poisoned => exact .stopped poisoned
  | short sound trimmed => exact .short sound trimmed
  | failed sound trimmed ended => exact .failed sound trimmed ended
  | done sound trimmed ended => exact .done sound trimmed ended

theorem sessionOfGeneration (injective : Function.Injective ρ) {generation : UInt64} {w : EncodingWriter W}
    (own : ρ w.generation = generation) (inputs : List TemporalUnitInput) :
    (w.ofGeneration generation).session (inputs.map (·.renamed ρ)) = w.session inputs := by
  obtain ⟨answered, behind⟩ := pushesRenamed injective inputs own
  have closed := finishedOutcome (finishOfGeneration generation (outcomeFinished (w.after inputs)))
  unfold session
  rw [answered, behind, closed]
  rfl

end EncodingWriter

theorem sessionRenamed {ρ : UInt64 → UInt64} (injective : Function.Injective ρ) {encoder encoder' : Encoder}
    (same : encoder'.descriptors = encoder.descriptors) (own : ρ encoder.generation = encoder'.generation) {W : Sink}
    (sink : W.State) (inputs : List TemporalUnitInput) :
    encoder'.session sink (inputs.map (·.renamed ρ)) = encoder.session sink inputs := by
  unfold Encoder.session Encoder.start
  rw [same]
  cases SequenceWriter.pushDescriptors encoder.descriptors (SequenceWriter.new sink) with
  | error e sequence => rfl
  | ok u sequence =>
    let w : EncodingWriter W := ⟨sequence, encoder.descriptors, encoder.generation, .initial⟩
    exact EncodingWriter.sessionOfGeneration injective (show ρ w.generation = _ from own) inputs

theorem templateIdsInvisible {b b' : EncoderBuilder} {encoder encoder' : Encoder} {manifest manifest' : IdManifest}
    (same : b.anonymous = b'.anonymous) (ok : b.build = .ok (encoder, manifest))
    (ok' : b'.build = .ok (encoder', manifest')) :
    encoder'.descriptors = encoder.descriptors ∧ manifest' = manifest.ofGeneration b'.generation ∧
      ∀ (ρ : UInt64 → UInt64), Function.Injective ρ → ρ b.generation = b'.generation →
        ∀ (W : Sink) (sink : W.State) (inputs : List TemporalUnitInput),
          encoder'.session sink (inputs.map (·.renamed ρ)) = encoder.session sink inputs := by
  have built := buildOk.mp ok
  have built' := buildOk.mp ok'
  obtain ⟨descriptors, _⟩ := Built.descriptorsSame same built built'
  refine ⟨descriptors, Built.manifestSame same built built', fun ρ injective own W sink inputs => ?_⟩
  rw [← built.generation, ← built'.generation] at own
  exact sessionRenamed injective descriptors own sink inputs

theorem templateIdsInvisibleTiny : ∃ manifest manifest',
    (declareTiny 3 (.new 7)).2.build = .ok (tinyEncoder, manifest) ∧
    (declareTiny 9 (.new 8)).2.build = .ok (⟨tinyEncoder.descriptors, 8⟩, manifest') ∧ manifest' = manifest.ofGeneration 8 ∧
    (∃ w s, tinyEncoder.start (W := Sink.buffer) [] = .ok w s ∧ w.accepted tinyInputs = [tinyUnit, tinyUnit]) ∧
    (⟨tinyEncoder.descriptors, 8⟩ : Encoder).session (W := Sink.buffer) [] (tinyInputs.map (·.renamed (· + 1))) =
      tinyEncoder.session [] tinyInputs := by
  obtain ⟨manifest, ok⟩ : ∃ manifest, (declareTiny 3 (.new 7)).2.build = .ok (tinyEncoder, manifest) :=
    buildsTo (by decide +kernel)
  obtain ⟨manifest', ok'⟩ : ∃ manifest, (declareTiny 9 (.new 8)).2.build = .ok (⟨tinyEncoder.descriptors, 8⟩, manifest) :=
    buildsTo (by decide +kernel)
  obtain ⟨w, s, started, ran⟩ := @Encoder.startedOf Sink.buffer tinyEncoder [] (fun w =>
    w.accepted tinyInputs == [tinyUnit, tinyUnit]) (by decide +kernel)
  obtain ⟨_, ids, alike⟩ := templateIdsInvisible (by decide +kernel) ok ok'
  have session := alike (· + 1) (fun a b same => by simpa using same) rfl Sink.buffer [] tinyInputs
  exact ⟨manifest, manifest', ok, ok', ids, ⟨w, s, started, beq_iff_eq.mp ran⟩, session⟩

end Iamf.Wire
