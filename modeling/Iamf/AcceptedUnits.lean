import Iamf.BuiltSubstreams
import Iamf.RejectedPushes

/-! The shape of every accepted unit. -/
namespace Iamf.Wire
open Bits BitString TapeCodec

inductive SameCodec : DecoderConfig → FrameInput → Prop where
  | lpcm {config payload} : SameCodec (.lpcm config) (.lpcm payload)
  | flac {config payload} : SameCodec (.flac config) (.flac payload)
  | opus {config payload} : SameCodec (.opus config) (.opus payload)
  | aacLc {config payload} : SameCodec (.aacLc config) (.aacLc payload)

theorem frameCodec {config : CodecConfig} {channels : UInt8} {frame : FrameInput}
    (ok : validateFrame config channels frame = .ok ()) : SameCodec config.decoderConfig frame := by
  unfold validateFrame at ok
  cases codec : config.decoderConfig with
  | lpcm lpcm =>
    cases frame with
    | lpcm payload => exact .lpcm
    | _ =>
      rw [codec] at ok
      cases ok
  | flac flac =>
    cases frame with
    | flac payload => exact .flac
    | _ =>
      rw [codec] at ok
      cases ok
  | opus opus =>
    cases frame with
    | opus payload => exact .opus
    | _ =>
      rw [codec] at ok
      cases ok
  | aacLc aacLc =>
    cases frame with
    | aacLc payload => exact .aacLc
    | _ =>
      rw [codec] at ok
      cases ok
  | raw =>
    rw [codec] at ok
    cases ok

theorem frameLength {config : CodecConfig} {channels : UInt8} {frame : FrameInput} {lpcm : LpcmDecoderConfig}
    (ok : validateFrame config channels frame = .ok ()) (codec : config.decoderConfig = .lpcm lpcm) :
    (framePayload frame).length = config.numSamplesPerFrame.toNat * channels.toNat * (lpcm.sampleSize.toNat / 8) := by
  have same := frameCodec ok
  rw [codec] at same
  cases same
  unfold validateFrame at ok
  rw [codec] at ok
  obtain ⟨_, _, ok⟩ := exceptBindOk ok
  obtain ⟨_, _, ok⟩ := exceptBindOk ok
  exact beq_iff_eq.mp (guardedOk.mp ok)

def durationsIn (whole each : UInt32) : Nat := (whole.toNat + each.toNat - 1) / each.toNat

theorem durationsInIs {whole each : Nat} (positive : 0 < each) : (whole + each - 1) / each =
    whole / each + if whole % each = 0 then 0 else 1 := by
  have split := Nat.div_add_mod whole each
  have below := Nat.mod_lt whole positive
  split_ifs with even
  · have last : (each - 1) / each = 0 := Nat.div_eq_of_lt (by omega)
    rw [show whole + each - 1 = each * (whole / each) + (each - 1) by omega, Nat.mul_add_div positive, last]
  · have last : (whole % each - 1) / each = 0 := Nat.div_eq_of_lt (by omega)
    have parts : whole + each - 1 = each * (whole / each + 1) + (whole % each - 1) := by
      rw [Nat.mul_add]
      omega
    rw [parts, Nat.mul_add_div positive, last]

theorem subblocksImpliedByIs {duration constant count : UInt32} {at' : Location}
    (ok : subblocksImpliedBy duration constant at' = .ok count) : count.toNat = durationsIn duration constant := by
  simp only [subblocksImpliedBy] at ok
  unfold durationsIn
  split_ifs at ok with zero even small
  all_goals
    have positive : 0 < constant.toNat := Nat.pos_of_ne_zero fun none => zero (UInt32.toNat_inj.mp none)
    have rest : (duration % constant).toNat = duration.toNat % constant.toNat := UInt32.toNat_mod ..
    rw [durationsInIs positive, ← rest]
    cases ok
  · rw [even]
    exact UInt32.toNat_div ..
  · have more : (duration % constant).toNat ≠ 0 := fun none => even (UInt32.toNat_inj.mp none)
    rw [UInt32.toNat_div, u32Max] at small
    rw [if_neg more, UInt32.toNat_add, UInt32.toNat_div]
    exact Nat.mod_eq_of_lt (Nat.lt_succ_of_le small)

inductive BlockShape (n : UInt32) (definition : ParamDefinition) (block : ParameterBlock) : Prop where
  | explicit {fields} (mode : definition.paramDefinitionMode = true) (own : block.durationFields = some fields)
      (duration : fields.duration = n) (free : fields.constantSubblockDuration = 0)
      (positive : ∀ subblock ∈ block.subblocks, ∃ d, subblock.subblockDuration = some d ∧ 0 < d.toNat)
      (sum : (block.subblocks.map (·.ownDuration)).sum = n.toNat) : BlockShape n definition block
  | constant {fields} (mode : definition.paramDefinitionMode = true) (own : block.durationFields = some fields)
      (duration : fields.duration = n) (fixed : fields.constantSubblockDuration ≠ 0)
      (count : block.subblocks.length = durationsIn n fields.constantSubblockDuration) : BlockShape n definition block
  | defined {fields} (mode : definition.paramDefinitionMode = false) (given : definition.durationFields = some fields)
      (count : block.subblocks.length = if fields.constantSubblockDuration = 0 then fields.subblockDurations.length
        else durationsIn fields.duration fields.constantSubblockDuration) : BlockShape n definition block

theorem writtenGoverned {definition : ParamDefinition} {context : ParameterDataContext} {block : ParameterBlock}
    {w : BitWriter} (written : runWriter (writeParameterBlock definition context block) = .ok w) :
    block.Governed definition context := by
  unfold runWriter at written
  split at written
  · rename_i ran
    obtain ⟨u, v, checked, _⟩ := bindOk ran
    exact governedOf (orThrowOk checked).1
  · cases written

theorem blockShape {encoder : Encoder} {submitted : SubmittedParameterBlock} {governing : RegisteredParamDefinition}
    {n : UInt32} (checked : encoder.BlockChecked submitted governing) (size : encoder.frameSize = some n) :
    BlockShape n governing.definition submitted.block := by
  obtain ⟨w, written⟩ := checked.written
  have governed := writtenGoverned written
  cases mode : governing.definition.paramDefinitionMode with
  | true =>
    have own := governed.mode.trans mode
    obtain ⟨fields, own⟩ := Option.isSome_iff_exists.mp own
    have duration := checked.duration
    rw [mode, own, size, Bool.true_and, Option.any_some, bne_eq_false_iff_eq, Option.some.injEq] at duration
    by_cases free : fields.constantSubblockDuration = 0
    · have durations := checked.durations
      unfold validateSubmittedParameterBlock at durations
      simp only [mode, own, guardedOk, free, beq_self_eq_true, Bool.true_and, Bool.not_or, Bool.and_eq_true,
        Bool.not_eq_true', List.any_eq_false, beq_iff_eq] at durations
      have carries := governed.carries
      rw [own, BlockDurationFields.explicit, Option.any_some, free] at carries
      refine .explicit mode own duration free (fun subblock among => ?_) ?_
      · obtain ⟨d, has⟩ := Option.isSome_iff_exists.mp (carries subblock among)
        refine ⟨d, has, Nat.pos_of_ne_zero fun zero => durations.2 subblock among ?_⟩
        rw [has]
        exact congrArg some (UInt32.toNat_inj.mp zero)
      · rw [← duration]
        exact governed.total fields own free
    · refine .constant mode own duration free ?_
      have implied := subblocksImpliedByIs (governed.implied fields own free .unlocated)
      rwa [countFits governed.small, duration] at implied
  | false =>
    have own : submitted.block.durationFields = none := by
      rw [← Option.not_isSome_iff_eq_none, governed.mode, mode]
      exact Bool.false_ne_true
    have defined := governed.defined own .unlocated .unlocated .unlocated
    unfold subblocksOfDefinition at defined
    cases given : governing.definition.durationFields with
    | none =>
      rw [given] at defined
      cases defined
    | some fields =>
      refine .defined mode given ?_
      simp only [given] at defined
      split_ifs at defined ⊢ with free
      · have same := u32TryFromOk defined
        rwa [countFits governed.small] at same
      · have implied := subblocksImpliedByIs defined
        rwa [countFits governed.small] at implied

def parameterIds (unit : TemporalUnit) : List UInt32 := unit.parameterBlocks.map (·.payload.parameterId)

structure UnitShape (encoder : Encoder) (config : CodecConfig) (input : TemporalUnitInput) (unit : TemporalUnit) :
    Prop where
  substreams : unit.audioFrames.map (·.payload.substreamId) =
    (encoder.descriptors.audioElements.flatMap (·.audioSubstreamIds)).eraseDups
  once : (unit.audioFrames.map (·.payload.substreamId)).Nodup
  trimming : ∀ frame ∈ unit.audioFrames, frame.header.typeSpecific = .trimming input.trimming
  payloads : unit.audioFrames.map (·.payload.payload) = input.frames.map fun entry => framePayload entry.2
  codec : ∀ entry ∈ input.frames, SameCodec config.decoderConfig entry.2
  lpcm : ∀ lpcm, config.decoderConfig = .lpcm lpcm → ∀ frame ∈ unit.audioFrames,
    ∀ element ∈ encoder.descriptors.audioElements, ∀ position,
      element.audioSubstreamIds[position]? = some frame.payload.substreamId → ∃ channels, Carries element position channels ∧
        frame.payload.payload.length = config.numSamplesPerFrame.toNat * channels * (lpcm.sampleSize.toNat / 8)
  distinct : (parameterIds unit).Nodup
  blocks : ∀ obu ∈ unit.parameterBlocks, ∃ governing,
    (ParamDefinitionRegistry.fromDescriptors encoder.descriptors).get obu.payload.parameterId = some governing ∧
      BlockShape config.numSamplesPerFrame governing.definition obu.payload

namespace Encoder

variable {encoder : Encoder} {input : TemporalUnitInput}

theorem loweredIds (encoder : Encoder) (input : TemporalUnitInput) :
    parameterIds (encoder.lowered input) = blockIds input.parameterBlocks := by
  unfold parameterIds lowered blockIds
  rw [List.map_map]
  rfl

theorem loweredSubstreams (count : input.frames.length = encoder.declaredSubstreams.length) :
    (encoder.lowered input).audioFrames.map (·.payload.substreamId) = encoder.declaredSubstreams := by
  unfold lowered
  rw [List.map_map]
  exact List.map_snd_zip count.ge

theorem loweredPayloads (count : input.frames.length = encoder.declaredSubstreams.length) :
    (encoder.lowered input).audioFrames.map (·.payload.payload) = input.frames.map fun entry => framePayload entry.2 := by
  unfold lowered
  rw [List.map_map]
  refine Eq.trans ?_ (congrArg (List.map fun entry : SubstreamHandle × FrameInput => framePayload entry.2)
    (List.map_fst_zip count.le))
  rw [List.map_map]
  rfl

theorem loweredTrimming {frame : Obu AudioFrame} (among : frame ∈ (encoder.lowered input).audioFrames) :
    frame.header.typeSpecific = .trimming input.trimming := by
  obtain ⟨entry, _, rfl⟩ := List.mem_map.mp among
  rfl

theorem loweredValid (sound : encoder.Sound input) : validateTemporalUnit (encoder.lowered input).audioFrames = .ok () := by
  refine validateTemporalUnitOk.mpr ⟨fun frame among other among' => ?_, ?_⟩
  · rw [loweredTrimming among, loweredTrimming among']
  · rw [loweredSubstreams sound.count, encoder.declaredSubstreamsAre]
    exact eraseDupsNodup _

theorem loweredShape {b : EncoderBuilder} {manifest : IdManifest} (built : Built b encoder manifest) {config : CodecConfig}
    (configs : encoder.descriptors.codecConfigs = [config]) (sound : encoder.Sound input) :
    UnitShape encoder config input (encoder.lowered input) := by
  have size := frameSizeOf configs
  have declared := encoder.declaredSubstreamsAre
  have planned {entry : (SubstreamHandle × FrameInput) × UInt32}
      (among : entry ∈ input.frames.zip encoder.declaredSubstreams) :
      ∃ channels, encoder.FrameChecked entry config channels := by
    obtain ⟨config', channels, checked⟩ := sound.frames entry among
    cases built.declaredConfig configs checked.declared checked.plan
    exact ⟨_, checked⟩
  refine ⟨?_, ?_, fun frame => loweredTrimming, loweredPayloads sound.count, fun entry among => ?_, ?_, ?_, ?_⟩
  · rw [loweredSubstreams sound.count, declared]
  · rw [loweredSubstreams sound.count, declared]
    exact eraseDupsNodup _
  · rw [← List.map_fst_zip sound.count.le] at among
    obtain ⟨pair, planned', rfl⟩ := List.mem_map.mp among
    obtain ⟨channels, checked⟩ := planned planned'
    exact frameCodec checked.frame
  · intro lpcm codec frame among element among' position at'
    obtain ⟨entry, planned', rfl⟩ := List.mem_map.mp among
    obtain ⟨channels, checked⟩ := planned planned'
    cases (built.substreamPlan configs among' at').symm.trans checked.plan
    exact ⟨_, built.carries among' position, frameLength checked.frame codec⟩
  · rw [encoder.loweredIds]
    exact sound.distinct
  · intro obu among
    obtain ⟨submitted, given, rfl⟩ := List.mem_map.mp among
    obtain ⟨governing, checked⟩ := sound.blocks submitted given
    exact ⟨governing, checked.registered, blockShape checked size⟩

theorem coveredBy {progress last : TemporalProgress} {inputs : List TemporalUnitInput} {units : List TemporalUnit}
    (lowers : encoder.Lowers progress inputs units last) {ids : List UInt32} (covered : progress.parameterIds = some ids) :
    ∀ unit ∈ units, ∀ id, id ∈ parameterIds unit ↔ id ∈ ids := by
  induction lowers with
  | nil => nofun
  | cons head tail ih =>
    obtain ⟨sound, _, rfl, trimmed, ids', _, coverage, rfl⟩ := preflightOk.mp head
    obtain ⟨rfl, covers⟩ := checkCoverageOk.mp coverage
    obtain ⟨count, inside⟩ := covers ids covered
    rw [List.forall_mem_cons]
    refine ⟨fun id => ?_, ih (by rw [covered]; rfl)⟩
    rw [encoder.loweredIds]
    exact ((List.subperm_of_subset sound.distinct inside).perm_of_length_le count.ge).mem_iff

theorem coveredAlike {last : TemporalProgress} {inputs : List TemporalUnitInput} {units : List TemporalUnit}
    (lowers : encoder.Lowers .initial inputs units last) :
    ∀ unit ∈ units, ∀ other ∈ units, ∀ id, id ∈ parameterIds unit ↔ id ∈ parameterIds other := by
  cases lowers with
  | nil => nofun
  | @cons _ input inputs unit units _ _ head tail =>
    obtain ⟨_, _, rfl, trimmed, ids', _, coverage, rfl⟩ := preflightOk.mp head
    obtain ⟨rfl, _⟩ := checkCoverageOk.mp coverage
    have each : ∀ unit ∈ encoder.lowered input :: units, ∀ id, id ∈ parameterIds unit ↔ id ∈ blockIds input.parameterBlocks := by
      rw [List.forall_mem_cons]
      exact ⟨fun id => by rw [encoder.loweredIds], coveredBy tail rfl⟩
    intro unit among other among' id
    rw [each unit among id, each other among' id]

theorem lowersAre {progress last : TemporalProgress} {inputs : List TemporalUnitInput} {units : List TemporalUnit}
    (lowers : encoder.Lowers progress inputs units last) :
    units = inputs.map encoder.lowered ∧ ∀ input ∈ inputs, encoder.Sound input := by
  induction lowers with
  | nil => exact ⟨rfl, nofun⟩
  | cons head _ ih =>
    obtain ⟨sound, _, same, _⟩ := preflightOk.mp head
    obtain ⟨rfl, each⟩ := ih
    rw [List.forall_mem_cons, same]
    exact ⟨rfl, sound, each⟩

end Encoder

theorem acceptedUnitsShaped {b : EncoderBuilder} {encoder : Encoder} {manifest : IdManifest}
    (ok : b.build = .ok (encoder, manifest)) : ∃ config, encoder.descriptors.codecConfigs = [config] ∧
      (∀ (W : Sink) (start : W.State) w s, encoder.start start = .ok w s → ∀ inputs, ∃ units,
        encoder.Lowers .initial (w.accepted inputs) units (w.after inputs).progress ∧
        (∀ pair ∈ (w.accepted inputs).zip units, UnitShape encoder config pair.1 pair.2) ∧
        ∀ unit ∈ units, ∀ other ∈ units, ∀ id, id ∈ parameterIds unit ↔ id ∈ parameterIds other) ∧
      ∀ progress input unit next, encoder.preflight progress input = .ok (unit, next) →
        validateTemporalUnit unit.audioFrames = .ok () := by
  have built := buildOk.mp ok
  obtain ⟨_, config, _, _, configs, _⟩ := built.oneConfig
  refine ⟨config, configs, fun W start w s started inputs => ?_, fun progress input unit next passed => ?_⟩
  · have sent := EncodingWriter.startSent started
    obtain ⟨units, lowers⟩ := w.runLowers inputs
    have initial : w.progress = .initial := by
      obtain ⟨_, ⟨_, _, _, sends, _⟩, _⟩ := id sent
      exact (Encoder.lowersUnique .nil sends.lowers).2
    rw [sent.same, initial] at lowers
    refine ⟨units, lowers, fun pair among => ?_, Encoder.coveredAlike lowers⟩
    obtain ⟨before, next, passed⟩ := Encoder.lowersEach lowers pair among
    obtain ⟨sound, _, same, _⟩ := Encoder.preflightOk.mp passed
    rw [same]
    exact Encoder.loweredShape built configs sound
  · obtain ⟨sound, _, rfl, _⟩ := Encoder.preflightOk.mp passed
    exact Encoder.loweredValid sound

theorem acceptedUnitsShapedTiny : ∃ config, tinyEncoder.descriptors.codecConfigs = [config] ∧
    (∀ (W : Sink) (start : W.State) w s, tinyEncoder.start start = .ok w s → ∀ inputs, ∃ units,
      tinyEncoder.Lowers .initial (w.accepted inputs) units (w.after inputs).progress ∧
      (∀ pair ∈ (w.accepted inputs).zip units, UnitShape tinyEncoder config pair.1 pair.2) ∧
      ∀ unit ∈ units, ∀ other ∈ units, ∀ id, id ∈ parameterIds unit ↔ id ∈ parameterIds other) ∧
    ∀ progress input unit next, tinyEncoder.preflight progress input = .ok (unit, next) →
      validateTemporalUnit unit.audioFrames = .ok () := by
  obtain ⟨manifest, built⟩ := tinyBuilds
  exact acceptedUnitsShaped built

end Iamf.Wire
