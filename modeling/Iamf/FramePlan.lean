import Iamf.TrimTimeline

/-! How a count of samples divides into frames, and what the last of them trims. -/
namespace Iamf.Wire
open Bits BitString TapeCodec

def u64CheckedAdd (a b : UInt64) : Option UInt64 := if a.toNat + b.toNat ≤ u64Max then some (a + b) else none

def u64CheckedSub (a b : UInt64) : Option UInt64 := if b.toNat ≤ a.toNat then some (a - b) else none

def u64CheckedMul (a b : UInt64) : Option UInt64 := if a.toNat * b.toNat ≤ u64Max then some (a * b) else none

def u64CheckedDiv (a b : UInt64) : Option UInt64 := if b = 0 then none else some (a / b)

def u64CheckedRem (a b : UInt64) : Option UInt64 := if b = 0 then none else some (a % b)

def okOr {α : Type} (v : Option α) (e : Error) : Except Error α := v.elim (.error e) .ok

structure FramePlan where
  frameCount : UInt64
  numSamplesPerFrame : UInt32
  trimAtEnd : UInt32
  deriving DecidableEq, Repr

namespace FramePlan

-- LPCM has no priming, so nothing is trimmed at the start
def trimmingFor (plan : FramePlan) (index : UInt64) : Option Trimming :=
  let isLast := u64CheckedAdd index 1 == some plan.frameCount
  if isLast && plan.trimAtEnd > 0 then some { atEnd := plan.trimAtEnd, atStart := 0 } else none

def trimmings (plan : FramePlan) : List (Option Trimming) :=
  (List.range plan.frameCount.toNat).map fun index => plan.trimmingFor (UInt64.ofNat index)

end FramePlan

def planFrames (totalSamples : UInt64) (numSamplesPerFrame : UInt32) : Except Error FramePlan := do
  guarded (numSamplesPerFrame != 0) ⟨.zeroSamplesPerFrame, .field "num_samples_per_frame"⟩
  let overflow : Error := ⟨.framePlanOverflow, .field "total_samples"⟩
  let perFrame := numSamplesPerFrame.toUInt64
  let whole ← okOr (u64CheckedDiv totalSamples perFrame) overflow
  let remainder ← okOr (u64CheckedRem totalSamples perFrame) overflow
  let frameCount ← (if remainder = 0 then .ok whole else okOr (u64CheckedAdd whole 1) overflow : Except Error UInt64)
  let capacity ← okOr (u64CheckedMul frameCount perFrame) overflow
  let surplus ← okOr (u64CheckedSub capacity totalSamples) overflow
  let trimAtEnd ← u32TryFrom surplus.toNat overflow
  .ok ⟨frameCount, numSamplesPerFrame, trimAtEnd⟩

def framesFor (total n : Nat) : Nat := (total + n - 1) / n

theorem framesForSplit (total : Nat) {n : Nat} (positive : 0 < n) :
    framesFor total n = total / n + if total % n = 0 then 0 else 1 := by
  have parts := Nat.div_add_mod total n
  have below := Nat.mod_lt total positive
  unfold framesFor
  split
  · rename_i whole
    rw [whole, Nat.add_zero] at parts
    rw [Nat.add_zero]
    refine Nat.div_eq_of_lt_le ?_ ?_
    · rw [Nat.mul_comm]; omega
    · rw [Nat.add_mul, Nat.mul_comm]; omega
  · rename_i more
    refine Nat.div_eq_of_lt_le ?_ ?_
    · rw [Nat.add_mul, Nat.mul_comm]; omega
    · rw [Nat.add_mul, Nat.add_mul, Nat.mul_comm]; omega

theorem framesForHold (total : Nat) {n : Nat} (positive : 0 < n) :
    total ≤ framesFor total n * n ∧ framesFor total n * n < total + n := by
  have parts := Nat.div_add_mod total n
  have below := Nat.mod_lt total positive
  rw [framesForSplit total positive, Nat.add_mul, Nat.mul_comm (total / n)]
  split <;> omega

structure Planned (total : UInt64) (n : UInt32) (plan : FramePlan) : Prop where
  count : plan.frameCount.toNat = framesFor total.toNat n.toNat
  size : plan.numSamplesPerFrame = n
  trimmed : plan.trimAtEnd.toNat = framesFor total.toNat n.toNat * n.toNat - total.toNat

theorem registerMod {v : Nat} (small : v ≤ u64Max) : v % 2 ^ 64 = v := Nat.mod_eq_of_lt (Nat.lt_succ_of_le small)

theorem okOrSome {α : Type} (v : α) (e : Error) : okOr (some v) e = .ok v := rfl

section

variable {n : UInt32} (positive : 0 < n.toNat)

include positive

theorem framesForSmall (total : UInt64) : framesFor total.toNat n.toNat ≤ u64Max := by
  have held := (framesForHold total.toNat positive).2
  have most := total.toNat_lt
  have split := framesForSplit total.toNat positive
  by_cases one : n.toNat = 1
  · rw [one] at split ⊢
    rw [Nat.mod_one, if_pos rfl, Nat.div_one] at split
    rw [split]
    unfold u64Max
    omega
  · have two : framesFor total.toNat n.toNat * 2 ≤ framesFor total.toNat n.toNat * n.toNat :=
      Nat.mul_le_mul_left _ (by omega)
    have wide := n.toNat_lt
    unfold u64Max
    omega

theorem framesForCount (total : UInt64) :
    (UInt64.ofNat (framesFor total.toNat n.toNat)).toNat = framesFor total.toNat n.toNat :=
  (UInt64.toNat_ofNat' ..).trans (registerMod (framesForSmall positive total))

variable {total : UInt64}

theorem frameCountOk {overflow : Error} :
    (if total % n.toUInt64 = 0 then .ok (total / n.toUInt64)
      else okOr (u64CheckedAdd (total / n.toUInt64) 1) overflow : Except Error UInt64) =
      .ok (UInt64.ofNat (framesFor total.toNat n.toNat)) := by
  have small := framesForSmall positive total
  have split := framesForSplit total.toNat positive
  have whole : (total / n.toUInt64).toNat = total.toNat / n.toNat := by
    rw [UInt64.toNat_div, UInt32.toNat_toUInt64]
  have rest : total % n.toUInt64 = 0 ↔ total.toNat % n.toNat = 0 := by
    rw [← UInt64.toNat_inj, UInt64.toNat_mod, UInt32.toNat_toUInt64]
    rfl
  have counted := framesForCount positive total
  by_cases exact : total.toNat % n.toNat = 0
  · rw [if_pos (rest.mpr exact)]
    rw [if_pos exact] at split
    refine congrArg Except.ok (UInt64.toNat_inj.mp ?_)
    rw [whole, counted, split, Nat.add_zero]
  · rw [if_neg (mt rest.mp exact)]
    rw [if_neg exact] at split
    have room : (total / n.toUInt64).toNat + (1 : UInt64).toNat ≤ u64Max := by
      rw [whole, show (1 : UInt64).toNat = 1 from rfl, ← split]
      exact small
    unfold u64CheckedAdd
    rw [if_pos room, okOrSome]
    refine congrArg Except.ok (UInt64.toNat_inj.mp ?_)
    rw [UInt64.toNat_add, registerMod room, whole, counted, split]
    rfl

theorem planFramesIs : planFrames total n =
    if framesFor total.toNat n.toNat * n.toNat ≤ u64Max then
      .ok ⟨UInt64.ofNat (framesFor total.toNat n.toNat), n,
        UInt32.ofNat (framesFor total.toNat n.toNat * n.toNat - total.toNat)⟩
    else .error ⟨.framePlanOverflow, .field "total_samples"⟩ := by
  obtain ⟨held, tight⟩ := framesForHold total.toNat positive
  have some' : n.toUInt64 ≠ 0 := by
    intro zero
    have value := congrArg UInt64.toNat zero
    rw [UInt32.toNat_toUInt64] at value
    exact Nat.ne_of_gt positive value
  have counted := framesForCount positive total
  have nonzero : (n != 0) = true := bne_iff_ne.mpr fun zero => Nat.ne_of_gt positive (congrArg UInt32.toNat zero)
  unfold planFrames
  rw [exceptBindOf _ (guardedOk.mpr nonzero)]
  simp only [u64CheckedDiv, u64CheckedRem, if_neg some', okOrSome]
  rw [exceptBindOf _ rfl, exceptBindOf _ rfl, exceptBindOf _ (frameCountOk positive)]
  have product : (UInt64.ofNat (framesFor total.toNat n.toNat)).toNat * n.toUInt64.toNat =
      framesFor total.toNat n.toNat * n.toNat := by rw [counted, UInt32.toNat_toUInt64]
  unfold u64CheckedMul
  rw [product]
  split
  · rename_i room
    have capacity : (UInt64.ofNat (framesFor total.toNat n.toNat) * n.toUInt64).toNat =
        framesFor total.toNat n.toNat * n.toNat := by
      rw [UInt64.toNat_mul, product, registerMod room]
    have surplus : (UInt64.ofNat (framesFor total.toNat n.toNat) * n.toUInt64 - total).toNat =
        framesFor total.toNat n.toNat * n.toNat - total.toNat := by
      rw [UInt64.toNat_sub_of_le _ _ (UInt64.le_iff_toNat_le.mpr (by rw [capacity]; exact held)), capacity]
    have narrow := n.toNat_lt
    rw [okOrSome, exceptBindOf _ rfl]
    unfold u64CheckedSub
    rw [if_pos (by rw [capacity]; exact held), okOrSome, exceptBindOf _ rfl, surplus]
    unfold u32TryFrom
    rw [if_pos (by unfold u32Max; omega)]
    rfl
  · rfl

theorem planned {plan : FramePlan} (ok : planFrames total n = .ok plan) : Planned total n plan := by
  obtain ⟨held, tight⟩ := framesForHold total.toNat positive
  have narrow := n.toNat_lt
  rw [planFramesIs positive] at ok
  split at ok
  · cases ok
    refine ⟨?_, rfl, ?_⟩
    · exact framesForCount positive total
    · exact (UInt32.toNat_ofNat' ..).trans (Nat.mod_eq_of_lt (by omega))
  · contradiction

theorem planFails : (∃ e, planFrames total n = .error e) ↔
    u64Max < framesFor total.toNat n.toNat * n.toNat := by
  rw [planFramesIs positive]
  split
  · exact iff_of_false nofun (by omega)
  · exact iff_of_true ⟨_, rfl⟩ (by omega)

end

namespace FramePlan

variable {plan : FramePlan}

def lastTrimming (plan : FramePlan) : Option Trimming :=
  if plan.trimAtEnd > 0 then some { atEnd := plan.trimAtEnd, atStart := 0 } else none

theorem trimmingForIs (index : UInt64) : plan.trimmingFor index =
    if index.toNat + 1 = plan.frameCount.toNat then plan.lastTrimming else none := by
  have one : (1 : UInt64).toNat = 1 := rfl
  have last : u64CheckedAdd index 1 = some plan.frameCount ↔ index.toNat + 1 = plan.frameCount.toNat := by
    unfold u64CheckedAdd
    split
    · rename_i room
      rw [one] at room
      rw [Option.some.injEq, ← UInt64.toNat_inj, UInt64.toNat_add, one, registerMod room]
    · rename_i past
      have count := plan.frameCount.toNat_lt
      refine iff_of_false nofun fun same => past ?_
      rw [one, same]
      exact Nat.le_of_lt_succ count
  unfold trimmingFor lastTrimming
  by_cases here : index.toNat + 1 = plan.frameCount.toNat
  · simp [here, last.mpr here]
  · simp [here, mt last.mp here]

theorem trimmingsAre {k : Nat} (count : plan.frameCount.toNat = k + 1) :
    plan.trimmings = List.replicate k none ++ [plan.lastTrimming] := by
  have most := plan.frameCount.toNat_lt
  have index {i : Nat} (below : i ≤ k) : (UInt64.ofNat i).toNat = i := by
    rw [UInt64.toNat_ofNat', Nat.mod_eq_of_lt (by omega)]
  have front : (List.range k).map (fun i => plan.trimmingFor (UInt64.ofNat i)) = List.replicate k none := by
    refine List.eq_replicate_iff.mpr ⟨by simp, fun t among => ?_⟩
    obtain ⟨i, below, rfl⟩ := List.mem_map.mp among
    have before := List.mem_range.mp below
    rw [trimmingForIs, index (by omega), if_neg (by omega)]
  unfold trimmings
  rw [count, List.range_succ, List.map_append, front, List.map_singleton, trimmingForIs, index (Nat.le_refl k),
    if_pos count.symm]

theorem trimmingsNone (count : plan.frameCount.toNat = 0) : plan.trimmings = [] := by
  unfold trimmings
  rw [count]
  rfl

def trims (trimming : Option Trimming) : Nat × Nat :=
  (trimming.elim 0 (·.atStart.toNat), trimming.elim 0 (·.atEnd.toNat))

theorem trimsLast : trims plan.lastTrimming = (0, plan.trimAtEnd.toNat) := by
  unfold trims lastTrimming
  split
  · rfl
  · rename_i zero
    have none : plan.trimAtEnd.toNat = 0 := Nat.eq_zero_of_not_pos zero
    rw [none]
    rfl

end FramePlan

namespace Planned

variable {total : UInt64} {n : UInt32} {plan : FramePlan} (planned : Planned total n plan)

include planned

theorem small (positive : 0 < n.toNat) : plan.trimAtEnd.toNat < n.toNat := by
  have held := framesForHold total.toNat positive
  rw [planned.trimmed]
  omega

theorem cases (positive : 0 < n.toNat) : plan.trimmings = [] ∧ total.toNat = 0 ∨
    ∃ k, plan.frameCount.toNat = k + 1 ∧ plan.trimmings = List.replicate k none ++ [plan.lastTrimming] ∧
      k * n.toNat + (n.toNat - plan.trimAtEnd.toNat) = total.toNat := by
  obtain ⟨held, tight⟩ := framesForHold total.toNat positive
  have count := planned.count
  have trimmed := planned.trimmed
  cases frames : framesFor total.toNat n.toNat with
  | zero =>
    rw [frames] at count held
    exact .inl ⟨FramePlan.trimmingsNone count, by omega⟩
  | succ k =>
    rw [frames] at count held tight trimmed
    rw [Nat.succ_mul] at held tight trimmed
    exact .inr ⟨k, count, FramePlan.trimmingsAre count, by omega⟩

theorem accounts (positive : 0 < n.toNat) :
    (plan.trimmings.map fun t => n.toNat - t.elim 0 (·.atEnd.toNat)).sum = total.toNat := by
  rcases planned.cases positive with ⟨none, zero⟩ | ⟨k, _, split, whole⟩
  · rw [none, zero]
    rfl
  · have last : plan.lastTrimming.elim 0 (·.atEnd.toNat) = plan.trimAtEnd.toNat := congrArg Prod.snd FramePlan.trimsLast
    rw [split, List.map_append, List.map_replicate, List.sum_append, List.sum_replicate, List.map_singleton,
      List.sum_singleton, last, smul_eq_mul, Option.elim_none, Nat.sub_zero, whole]

theorem onlyLast (positive : 0 < n.toNat) {i : UInt64} {t : Trimming} (carried : plan.trimmingFor i = some t) :
    i.toNat + 1 = plan.frameCount.toNat ∧ 1 ≤ t.atEnd.toNat ∧ t.atEnd < n ∧ t.atStart = 0 := by
  have small := planned.small positive
  rw [FramePlan.trimmingForIs] at carried
  split at carried
  · rename_i last
    unfold FramePlan.lastTrimming at carried
    split at carried
    · rename_i more
      cases carried
      exact ⟨last, more, small, rfl⟩
    · contradiction
  · contradiction

theorem untrimmed (positive : 0 < n.toNat) : Untrimmed n.toNat (plan.trimmings.map FramePlan.trims) := by
  have small := planned.small positive
  rcases planned.cases positive with ⟨none, _⟩ | ⟨k, _, split, _⟩
  · rw [none]
    exact ⟨nofun, nofun, nofun⟩
  · have each {t : Nat × Nat} (among : t ∈ List.replicate k (0, 0)) : t = (0, 0) := List.eq_of_mem_replicate among
    rw [split, List.map_append, List.map_replicate, List.map_singleton, FramePlan.trimsLast]
    change Untrimmed n.toNat (List.replicate k (0, 0) ++ [(0, plan.trimAtEnd.toNat)])
    refine ⟨fun t among => ?_, fun t among => ?_, fun t among => ?_⟩
    · rcases List.mem_append.mp among with front | last
      · rw [each front]
        exact Nat.zero_le _
      · rw [List.mem_singleton.mp last]
        simpa using Nat.le_of_lt small
    · rw [List.dropLast_concat] at among
      rw [each among]
    · rcases List.mem_append.mp among with front | last
      · rw [each front]
      · rw [List.mem_singleton.mp last]

end Planned

theorem untrimmedTimeline {n : Nat} {trims : List (Nat × Nat)} (positive : 0 < n) (untrimmed : Untrimmed n trims) :
    TrimTimeline n none 0 trims := by
  refine ⟨untrimmed.fits, untrimmed.ends, 0, Nat.zero_le _, nofun, fun t first => ?_, fun t among => ?_, nofun⟩
  · rw [untrimmed.starts t (List.mem_of_getElem? first)]
    exact positive
  · exact untrimmed.starts t (List.mem_of_mem_drop among)

namespace Encoder

variable {encoder : Encoder} {progress : TemporalProgress}

theorem advanceWithoutStart (skip : encoder.opusPreSkip = none) (going : progress.endTrimmed = false)
    {t : Option Trimming} (start : t.elim 0 (·.atStart) = 0) :
    ∃ next, encoder.advanceTrimming progress t = .ok next ∧ next.endTrimmed = decide (t.elim 0 (·.atEnd) > 0) := by
  refine ⟨_, advanceTrimmingOk.mpr ⟨going, fun positive => ?_, _, addStartTrimOther (.inl skip), rfl⟩, rfl⟩
  rw [start] at positive
  contradiction

theorem advanceUntrimmed (skip : encoder.opusPreSkip = none) (going : progress.endTrimmed = false)
    {last : Option Trimming} (start : last.elim 0 (·.atStart) = 0) (k : Nat) :
    ∃ behind, (List.replicate k none ++ [last]).foldlM encoder.advanceTrimming progress = .ok behind := by
  induction k generalizing progress with
  | zero =>
    obtain ⟨next, advanced, _⟩ := advanceWithoutStart skip going start
    exact ⟨next, by rw [List.replicate_zero, List.nil_append, List.foldlM_cons, exceptBindOf _ advanced]; rfl⟩
  | succ k ih =>
    obtain ⟨next, advanced, still⟩ := advanceWithoutStart skip going (t := none) rfl
    obtain ⟨behind, rest⟩ := ih still
    exact ⟨behind, by rw [List.replicate_succ, List.cons_append, List.foldlM_cons, exceptBindOf _ advanced, rest]⟩

/-- Units under these trimmings that pass every other check are all accepted, and `finish` behind them. -/
def AcceptsTrimmings (encoder : Encoder) (trimmings : List (Option Trimming)) : Prop :=
  ∀ (W : Sink) (start : W.State) (w : EncodingWriter W) (s : SequenceWriter W) (inputs : List TemporalUnitInput),
    W.AcceptsAll → encoder.start start = .ok w s → encoder.PassesOtherwise inputs →
    inputs.map (·.trimming) = trimmings →
    (∀ reply ∈ w.answers inputs, reply = .ok ()) ∧
      (EncodingWriter.outcome EncodingWriter.finish (w.after inputs)).1 = .ok ()

theorem acceptsUntrimmed {b : EncoderBuilder} {manifest : IdManifest} (ok : b.build = .ok (encoder, manifest))
    {n : UInt32} (positive : 0 < n.toNat) (size : encoder.frameSize = some n) (skip : encoder.opusPreSkip = none)
    {trimmings : List (Option Trimming)} (untrimmed : Untrimmed n.toNat (trimmings.map FramePlan.trims)) :
    encoder.AcceptsTrimmings trimmings := by
  intro W start w s inputs all started passes same
  have built := buildOk.mp ok
  obtain ⟨_, config, _, _, configs, _⟩ := built.oneConfig
  have equal : config.numSamplesPerFrame = n := Option.some.inj ((frameSizeOf configs).symm.trans size)
  have trims : inputs.map (·.trims) = trimmings.map FramePlan.trims := by
    rw [← same, List.map_map]
    rfl
  have lowers := (Encoder.lowersOpen built configs (passesReady passes) (initialOpen encoder) fun _ _ => Nat.zero_le _).mpr
    (by rw [skip, equal, trims]; exact untrimmedTimeline positive untrimmed)
  have sent := EncodingWriter.startSent started
  have accepted := (EncodingWriter.answersOk all sent).mpr ((acceptsLowers passes).mpr lowers)
  have behind := EncodingWriter.answersSent all sent accepted
  refine ⟨accepted, ?_⟩
  rw [(EncodingWriter.finishSent all behind).1, guardedOk, EncodingWriter.preSkipTrimmed, behind.same, skip]
  rfl

end Encoder

theorem Planned.advances {total : UInt64} {n : UInt32} {plan : FramePlan} (planned : Planned total n plan)
    (positive : 0 < n.toNat) {encoder : Encoder} (skip : encoder.opusPreSkip = none) :
    ∃ last, plan.trimmings.foldlM encoder.advanceTrimming .initial = .ok last := by
  rcases planned.cases positive with ⟨none, _⟩ | ⟨k, _, split, _⟩
  · rw [none]
    exact ⟨_, rfl⟩
  · have start : plan.lastTrimming.elim 0 (·.atStart) = 0 := by
      unfold FramePlan.lastTrimming
      split <;> rfl
    rw [split]
    exact Encoder.advanceUntrimmed skip rfl start k

theorem framePlanAccounts {total : UInt64} {n : UInt32} (positive : 1 ≤ n.toNat) :
    ((∃ e, planFrames total n = .error e) ↔ u64Max < framesFor total.toNat n.toNat * n.toNat) ∧
    ∀ plan, planFrames total n = .ok plan →
      plan.frameCount.toNat = framesFor total.toNat n.toNat ∧
      (plan.trimmings.map fun t => n.toNat - t.elim 0 (·.atEnd.toNat)).sum = total.toNat ∧
      (∀ (i : UInt64) (t : Trimming), plan.trimmingFor i = some t →
        i.toNat + 1 = plan.frameCount.toNat ∧ 1 ≤ t.atEnd.toNat ∧ t.atEnd < n ∧ t.atStart = 0) ∧
      (∀ config : CodecConfig, config.numSamplesPerFrame = n →
        ∀ t ∈ plan.trimmings, validateTemporalTrimming t config = .ok ()) ∧
      (∀ encoder : Encoder, encoder.opusPreSkip = none →
        ∃ last, plan.trimmings.foldlM encoder.advanceTrimming .initial = .ok last) ∧
      ∀ (b : EncoderBuilder) (encoder : Encoder) (manifest : IdManifest), b.build = .ok (encoder, manifest) →
        encoder.frameSize = some n → encoder.opusPreSkip = none → encoder.AcceptsTrimmings plan.trimmings := by
  refine ⟨planFails positive, fun plan ok => ?_⟩
  have planned := planned positive ok
  have untrimmed := planned.untrimmed positive
  refine ⟨planned.count, planned.accounts positive, fun i t carried => planned.onlyLast positive carried,
    fun config size t among => ?_, fun encoder skip => ?_, fun b encoder manifest built size skip =>
    Encoder.acceptsUntrimmed built positive size skip untrimmed⟩
  · rw [temporalTrimmingOk, size]
    exact untrimmed.fits _ (List.mem_map_of_mem among)
  · exact planned.advances positive skip

theorem framePlanAccountsPartial : ∃ plan, planFrames 1000 128 = .ok plan ∧ plan = ⟨8, 128, 24⟩ ∧
    (plan.trimmings.map fun t => 128 - t.elim 0 (·.atEnd.toNat)).sum = 1000 ∧ ∀ encoder : Encoder,
      encoder.opusPreSkip = none → ∃ last, plan.trimmings.foldlM encoder.advanceTrimming .initial = .ok last :=
  have positive : 1 ≤ (128 : UInt32).toNat := by decide
  have plan : planFrames 1000 128 = .ok ⟨8, 128, 24⟩ := by decide
  have facts := (framePlanAccounts positive).2 _ plan
  ⟨_, plan, rfl, facts.2.1, facts.2.2.2.2.1⟩

end Iamf.Wire
