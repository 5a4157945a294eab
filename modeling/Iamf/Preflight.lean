import Iamf.EncodingWriter
import Iamf.HandleIds

/-! What a unit that passes the checks is, check by check. Which checks pass does not depend on the
units before, but for the trimming and for the parameters to cover. -/
namespace Iamf.Wire
open Bits BitString TapeCodec

theorem checkDistinctHandlesOk {seen handles : List SubstreamHandle} :
    checkDistinctHandles seen handles = .ok () ↔ (∀ handle ∈ handles, handle ∉ seen) ∧ handles.Nodup := by
  induction handles generalizing seen with
  | nil => simp [checkDistinctHandles]
  | cons handle handles ih =>
    rw [List.forall_mem_cons, List.nodup_cons]
    constructor
    · intro ok
      obtain ⟨_, fresh, rest⟩ := exceptBindOk ok
      have new : handle ∉ seen := by simpa using guardedOk.mp fresh
      obtain ⟨others, once⟩ := ih.mp rest
      refine ⟨⟨new, fun other among before => others other among (List.mem_append_left _ before)⟩, fun again => ?_, once⟩
      exact others handle again (by simp)
    · intro ⟨⟨new, others⟩, apart, once⟩
      have fresh : (!seen.contains handle) = true := by simpa using new
      unfold checkDistinctHandles
      rw [exceptBindOf _ (guardedOk.mpr fresh)]
      refine ih.mpr ⟨fun other among before => ?_, once⟩
      rcases List.mem_append.mp before with earlier | here
      · exact others other among earlier
      · exact apart (List.mem_singleton.mp here ▸ among)

theorem addIdsAre (ids : List UInt32) : ids.foldl addId [] = ids.eraseDups := by
  induction ids using List.reverseRecOn with
  | nil => rfl
  | append_singleton ids id ih =>
    rw [List.foldl_append, ih, List.eraseDups_append]
    by_cases known : id ∈ ids <;> simp [addId, known, List.removeAll, List.eraseDups_cons]

theorem eraseDupsNodup (ids : List UInt32) : ids.eraseDups.Nodup := by
  induction ids using List.reverseRecOn with
  | nil => exact List.nodup_nil
  | append_singleton ids id ih =>
    rw [List.eraseDups_append, List.nodup_append']
    refine ⟨ih, ?_, fun other before here => ?_⟩
    · by_cases known : id ∈ ids <;> simp [known, List.removeAll, List.eraseDups_cons]
    · by_cases known : id ∈ ids
      · simp [known, List.removeAll] at here
      · simp only [List.removeAll, known, List.elem_eq_mem, decide_false, Bool.not_false, List.filter_cons_of_pos,
          List.filter_nil, List.eraseDups_cons, List.eraseDups_nil, List.mem_singleton] at here
        exact known (List.mem_eraseDups.mp (here ▸ before))

namespace Encoder

variable {encoder : Encoder}

theorem declaredSubstreamsAre (encoder : Encoder) : encoder.declaredSubstreams =
    (encoder.descriptors.audioElements.flatMap (·.audioSubstreamIds)).eraseDups := addIdsAre _

def lowered (encoder : Encoder) (input : TemporalUnitInput) : TemporalUnit :=
  ⟨none, input.parameterBlocks.map fun submitted => .new (.new .parameterBlock) submitted.block,
    (input.frames.zip encoder.declaredSubstreams).map fun entry =>
      AudioFrame.intoObu ⟨entry.2, framePayload entry.1.2⟩ input.trimming⟩

structure FrameChecked (encoder : Encoder) (entry : (SubstreamHandle × FrameInput) × UInt32) (config : CodecConfig)
    (channels : UInt8) : Prop where
  handle : entry.1.1 = ⟨encoder.generation, entry.2.toNat⟩
  declared : entry.2 ∈ encoder.declaredSubstreams
  plan : encoder.substreamPlan entry.2 = .ok (config, channels)
  frame : validateFrame config channels entry.1.2 = .ok ()

theorem substreamIdOk {handle : SubstreamHandle} {id : UInt32} : encoder.substreamId handle = .ok id ↔
    handle = ⟨encoder.generation, id.toNat⟩ ∧ id ∈ encoder.declaredSubstreams := by
  constructor
  · intro ok
    obtain ⟨_, own, ok⟩ := exceptBindOk ok
    obtain ⟨_, index, ok⟩ := exceptBindOk ok
    obtain ⟨_, declared, ok⟩ := exceptBindOk ok
    cases ok
    have same := u32TryFromOk index
    obtain ⟨generation, position⟩ := handle
    cases beq_iff_eq.mp (guardedOk.mp own)
    cases same
    exact ⟨rfl, by simpa using guardedOk.mp declared⟩
  · intro ⟨same, declared⟩
    subst same
    have index := u32TryFromOf (temporalInput .unknownTemporalSubstreamHandle "substream_handle")
      (Nat.le_of_lt_succ id.toNat_lt)
    rw [UInt32.ofNat_toNat] at index
    unfold substreamId
    simp only [exceptBindOf _ (guardedOk.mpr (beq_self_eq_true encoder.generation)), exceptBindOf _ index]
    exact exceptBindOf _ (guardedOk.mpr (by simpa using declared))

theorem lowerFrameOk {trimming : Option Trimming} {entry : (SubstreamHandle × FrameInput) × UInt32}
    {obu : Obu AudioFrame} : encoder.lowerFrame trimming entry = .ok obu ↔ ∃ config channels,
      encoder.FrameChecked entry config channels ∧ validateTemporalTrimming trimming config = .ok () ∧
        obu = AudioFrame.intoObu ⟨entry.2, framePayload entry.1.2⟩ trimming := by
  constructor
  · intro ok
    obtain ⟨id, own, ok⟩ := exceptBindOk ok
    obtain ⟨_, expected, ok⟩ := exceptBindOk ok
    obtain ⟨⟨config, channels⟩, plan, ok⟩ := exceptBindOk ok
    obtain ⟨_, trims, ok⟩ := exceptBindOk ok
    obtain ⟨_, frame, ok⟩ := exceptBindOk ok
    cases ok
    cases beq_iff_eq.mp (guardedOk.mp expected)
    obtain ⟨handle, declared⟩ := substreamIdOk.mp own
    exact ⟨config, channels, ⟨handle, declared, plan, frame⟩, trims, rfl⟩
  · intro ⟨config, channels, checked, trims, same⟩
    unfold lowerFrame
    rw [exceptBindOf _ (substreamIdOk.mpr ⟨checked.handle, checked.declared⟩),
      exceptBindOf _ (guardedOk.mpr (beq_self_eq_true _)), exceptBindOf _ checked.plan]
    simp only [exceptBindOf _ trims, exceptBindOf _ checked.frame, same]

structure BlockChecked (encoder : Encoder) (submitted : SubmittedParameterBlock) (governing : RegisteredParamDefinition) :
    Prop where
  handle : submitted.parameter = ⟨encoder.generation, submitted.block.parameterId.toNat⟩
  registered : (ParamDefinitionRegistry.fromDescriptors encoder.descriptors).get submitted.block.parameterId =
    some governing
  durations : validateSubmittedParameterBlock governing.definition submitted.block = .ok ()
  written : ∃ w, runWriter (writeParameterBlock governing.definition governing.context submitted.block) = .ok w
  duration : (governing.definition.paramDefinitionMode &&
    submitted.block.durationFields.any fun fields => some fields.duration != encoder.frameSize) = false

theorem parameterIdOk {handle : ParameterHandle} {definitions : ParamDefinitionRegistry} {id : UInt32} :
    encoder.parameterId handle definitions = .ok id ↔
      handle = ⟨encoder.generation, id.toNat⟩ ∧ ∃ governing, definitions.get id = some governing := by
  constructor
  · intro ok
    obtain ⟨_, own, ok⟩ := exceptBindOk ok
    obtain ⟨_, index, ok⟩ := exceptBindOk ok
    obtain ⟨_, known, ok⟩ := exceptBindOk ok
    cases ok
    have same := u32TryFromOk index
    obtain ⟨generation, position⟩ := handle
    cases beq_iff_eq.mp (guardedOk.mp own)
    cases same
    exact ⟨rfl, Option.isSome_iff_exists.mp (guardedOk.mp known)⟩
  · intro ⟨same, governing, found⟩
    subst same
    have index := u32TryFromOf (temporalInput .unknownTemporalParameterHandle "parameter_handle")
      (Nat.le_of_lt_succ id.toNat_lt)
    rw [UInt32.ofNat_toNat] at index
    unfold parameterId
    simp only [exceptBindOf _ (guardedOk.mpr (beq_self_eq_true encoder.generation)), exceptBindOf _ index]
    exact exceptBindOf _ (guardedOk.mpr (by rw [found]; rfl))

theorem lowerParameterBlockOk {seen : List UInt32} {submitted : SubmittedParameterBlock} {id : UInt32} :
    encoder.lowerParameterBlock (.fromDescriptors encoder.descriptors) seen submitted = .ok id ↔
      id = submitted.block.parameterId ∧ id ∉ seen ∧ ∃ governing, encoder.BlockChecked submitted governing := by
  constructor
  · intro ok
    obtain ⟨own, handle, ok⟩ := exceptBindOk ok
    obtain ⟨_, same, ok⟩ := exceptBindOk ok
    obtain ⟨_, fresh, ok⟩ := exceptBindOk ok
    obtain ⟨governing, found, ok⟩ := exceptBindOk ok
    obtain ⟨_, durations, ok⟩ := exceptBindOk ok
    obtain ⟨w, written, ok⟩ := exceptBindOk ok
    obtain ⟨_, duration, ok⟩ := exceptBindOk ok
    cases ok
    cases beq_iff_eq.mp (guardedOk.mp same)
    obtain ⟨handle, known', known⟩ := parameterIdOk.mp handle
    rw [known] at found
    cases found
    refine ⟨rfl, by simpa using guardedOk.mp fresh, governing, handle, known, durations, ⟨w, written⟩, ?_⟩
    exact Bool.not_eq_true' _ ▸ guardedOk.mp duration
  · intro ⟨same, fresh, governing, checked⟩
    subst same
    obtain ⟨w, written⟩ := checked.written
    have found : (Option.elim (ParamDefinitionRegistry.get (.fromDescriptors encoder.descriptors)
        submitted.block.parameterId) (.error (temporalInput .unknownTemporalParameterHandle "parameter_handle")) .ok :
          Except Error RegisteredParamDefinition) = .ok governing := by
      rw [checked.registered]
      rfl
    have new : (!seen.contains submitted.block.parameterId) = true := by simpa using fresh
    unfold lowerParameterBlock
    rw [exceptBindOf _ (parameterIdOk.mpr ⟨checked.handle, governing, checked.registered⟩),
      exceptBindOf _ (guardedOk.mpr (beq_self_eq_true _)), exceptBindOf _ (guardedOk.mpr new), exceptBindOf _ found,
      exceptBindOf _ checked.durations, exceptBindOf _ written]
    exact exceptBindOf _ (guardedOk.mpr (by rw [checked.duration]; rfl))

def blockIds (blocks : List SubmittedParameterBlock) : List UInt32 := blocks.map (·.block.parameterId)

theorem lowerParameterBlocksOk {seen ids : List UInt32} {blocks : List SubmittedParameterBlock}
    {out : List (Obu ParameterBlock)} :
    encoder.lowerParameterBlocks (.fromDescriptors encoder.descriptors) seen blocks = .ok (out, ids) ↔
      (∀ submitted ∈ blocks, submitted.block.parameterId ∉ seen ∧ ∃ governing, encoder.BlockChecked submitted governing) ∧
      (blockIds blocks).Nodup ∧ out = blocks.map (fun submitted => .new (.new .parameterBlock) submitted.block) ∧
      ids = seen ++ blockIds blocks := by
  induction blocks generalizing seen ids out with
  | nil =>
    constructor
    · intro ok
      cases ok
      exact ⟨nofun, List.nodup_nil, rfl, (List.append_nil _).symm⟩
    · intro ⟨_, _, same, all⟩
      rw [same, all, show blockIds [] = [] from rfl, List.append_nil]
      rfl
  | cons submitted blocks ih =>
    have split : blockIds (submitted :: blocks) = submitted.block.parameterId :: blockIds blocks := rfl
    rw [List.forall_mem_cons, split, List.nodup_cons]
    constructor
    · intro ok
      obtain ⟨id, first, ok⟩ := exceptBindOk ok
      obtain ⟨⟨others, ids'⟩, rest, ok⟩ := exceptBindOk ok
      cases ok
      obtain ⟨rfl, fresh, checked⟩ := lowerParameterBlockOk.mp first
      obtain ⟨each, once, rfl, rfl⟩ := ih.mp rest
      refine ⟨⟨⟨fresh, checked⟩, fun other among => ⟨fun before => ?_, (each other among).2⟩⟩, ⟨fun again => ?_, once⟩, rfl,
        List.append_assoc _ _ _⟩
      · exact (each other among).1 (List.mem_append_left _ before)
      · obtain ⟨other, among, same⟩ := List.mem_map.mp again
        exact (each other among).1 (by simp [same])
    · intro ⟨⟨⟨fresh, checked⟩, each⟩, ⟨apart, once⟩, same, all⟩
      have behind : ∀ other ∈ blocks, other.block.parameterId ∉ seen ++ [submitted.block.parameterId] ∧
          ∃ governing, encoder.BlockChecked other governing := by
        refine fun other among => ⟨fun before => ?_, (each other among).2⟩
        rcases List.mem_append.mp before with earlier | here
        · exact (each other among).1 earlier
        · exact apart (List.mem_map.mpr ⟨other, among, List.mem_singleton.mp here⟩)
      unfold lowerParameterBlocks
      rw [exceptBindOf _ (lowerParameterBlockOk.mpr ⟨rfl, fresh, checked⟩),
        exceptBindOf _ (ih.mpr ⟨behind, once, rfl, rfl⟩), same, all, List.append_assoc]
      rfl

structure Sound (encoder : Encoder) (input : TemporalUnitInput) : Prop where
  handles : (input.frames.map (·.1)).Nodup
  count : input.frames.length = encoder.declaredSubstreams.length
  frames : ∀ entry ∈ input.frames.zip encoder.declaredSubstreams, ∃ config channels,
    encoder.FrameChecked entry config channels
  blocks : ∀ submitted ∈ input.parameterBlocks, ∃ governing, encoder.BlockChecked submitted governing
  distinct : (blockIds input.parameterBlocks).Nodup

def TrimmingFits (encoder : Encoder) (input : TemporalUnitInput) : Prop :=
  ∀ entry ∈ input.frames.zip encoder.declaredSubstreams, ∀ config channels,
    encoder.substreamPlan entry.2 = .ok (config, channels) → validateTemporalTrimming input.trimming config = .ok ()

theorem lowerFramesOk {trimming : Option Trimming} {entries : List ((SubstreamHandle × FrameInput) × UInt32)}
    {frames : List (Obu AudioFrame)} : entries.mapM (encoder.lowerFrame trimming) = .ok frames ↔
      (∀ entry ∈ entries, ∃ config channels, encoder.FrameChecked entry config channels ∧
        validateTemporalTrimming trimming config = .ok ()) ∧
      frames = entries.map fun entry => AudioFrame.intoObu ⟨entry.2, framePayload entry.1.2⟩ trimming := by
  refine mapMOk fun entry obu => lowerFrameOk.trans ?_
  constructor
  · intro ⟨config, channels, checked, trims, same⟩
    exact ⟨⟨config, channels, checked, trims⟩, same⟩
  · intro ⟨⟨config, channels, checked, trims⟩, same⟩
    exact ⟨config, channels, checked, trims, same⟩

theorem preflightOk {progress next : TemporalProgress} {input : TemporalUnitInput} {unit : TemporalUnit} :
    encoder.preflight progress input = .ok (unit, next) ↔
      encoder.Sound input ∧ encoder.TrimmingFits input ∧ unit = encoder.lowered input ∧
      ∃ trimmed ids, encoder.advanceTrimming progress input.trimming = .ok trimmed ∧
        checkCoverage progress.parameterIds (blockIds input.parameterBlocks) = .ok ids ∧
        next = { trimmed with parameterIds := some ids } := by
  constructor
  · intro ok
    obtain ⟨_, handles, ok⟩ := exceptBindOk ok
    obtain ⟨_, count, ok⟩ := exceptBindOk ok
    obtain ⟨frames, lowered, ok⟩ := exceptBindOk ok
    obtain ⟨trimmed, advanced, ok⟩ := exceptBindOk ok
    obtain ⟨⟨blocks, submitted⟩, lowered', ok⟩ := exceptBindOk ok
    obtain ⟨ids, covered, ok⟩ := exceptBindOk ok
    cases ok
    obtain ⟨each, rfl⟩ := lowerFramesOk.mp lowered
    obtain ⟨each', distinct, rfl, rfl⟩ := lowerParameterBlocksOk.mp lowered'
    refine ⟨⟨(checkDistinctHandlesOk.mp handles).2, beq_iff_eq.mp (guardedOk.mp count), fun entry among => ?_,
      fun submitted among => (each' submitted among).2, distinct⟩, fun entry among config channels plan => ?_, rfl,
      trimmed, ids, advanced, covered, rfl⟩
    · obtain ⟨config, channels, checked, _⟩ := each entry among
      exact ⟨config, channels, checked⟩
    · obtain ⟨config', channels', checked, trims⟩ := each entry among
      cases plan.symm.trans checked.plan
      exact trims
  · intro ⟨sound, fits, same, trimmed, ids, advanced, covered, last⟩
    have frames := lowerFramesOk.mpr ⟨fun entry among => by
      obtain ⟨config, channels, checked⟩ := sound.frames entry among
      exact ⟨config, channels, checked, fits entry among config channels checked.plan⟩, rfl⟩
    have blocks := lowerParameterBlocksOk.mpr
      ⟨fun submitted among => ⟨List.not_mem_nil, sound.blocks submitted among⟩, sound.distinct, rfl, rfl⟩
    unfold preflight
    rw [exceptBindOf _ (checkDistinctHandlesOk.mpr ⟨fun _ _ => List.not_mem_nil, sound.handles⟩),
      exceptBindOf _ (guardedOk.mpr (beq_iff_eq.mpr sound.count)), exceptBindOf _ frames, exceptBindOf _ advanced,
      exceptBindOf _ blocks]
    exact (exceptBindOf _ covered).trans (by rw [same, last]; rfl)

end Encoder

theorem checkCoverageOk {covered : Option (List UInt32)} {submitted ids : List UInt32} :
    checkCoverage covered submitted = .ok ids ↔ ids = covered.getD submitted ∧
      ∀ expected, covered = some expected → submitted.length = expected.length ∧ ∀ id ∈ submitted, id ∈ expected := by
  cases covered with
  | none => simp [checkCoverage, eq_comm]
  | some expected =>
    constructor
    · intro ok
      obtain ⟨_, covers, ok⟩ := exceptBindOk ok
      cases ok
      obtain ⟨count, each⟩ := Bool.and_eq_true_iff.mp (guardedOk.mp covers)
      refine ⟨rfl, fun other same => ?_⟩
      cases same
      exact ⟨beq_iff_eq.mp count, by simpa using each⟩
    · intro ⟨same, covers⟩
      obtain ⟨count, each⟩ := covers expected rfl
      have both : (submitted.length == expected.length && submitted.all expected.contains) = true :=
        Bool.and_eq_true_iff.mpr ⟨beq_iff_eq.mpr count, by simpa using each⟩
      unfold checkCoverage
      simp only [exceptBindOf _ (guardedOk.mpr both), same, Option.getD_some]

end Iamf.Wire
