import Iamf.AcceptedUnits

/-! Which trimmings a run of units may carry. -/
namespace Iamf.Wire
open Bits BitString TapeCodec

def TemporalUnitInput.trims (input : TemporalUnitInput) : Nat × Nat :=
  (input.trimming.elim 0 (·.atStart.toNat), input.trimming.elim 0 (·.atEnd.toNat))

structure Untrimmed (n : Nat) (trims : List (Nat × Nat)) : Prop where
  fits : ∀ t ∈ trims, t.1 + t.2 ≤ n
  ends : ∀ t ∈ trims.dropLast, t.2 = 0
  starts : ∀ t ∈ trims, t.1 = 0

/-- Behind `before` samples of start trims: units of `n` samples that are wholly trimmed at their start,
then one that is not, then none that is at all; a pre-skip is not exceeded, and trimmed to the end once
the run of start trims is over. -/
structure TrimTimeline (n : Nat) (preSkip : Option Nat) (before : Nat) (trims : List (Nat × Nat)) : Prop where
  fits : ∀ t ∈ trims, t.1 + t.2 ≤ n
  ends : ∀ t ∈ trims.dropLast, t.2 = 0
  starts : ∃ m ≤ trims.length, (∀ t ∈ trims.take m, t.1 = n) ∧ (∀ t, trims[m]? = some t → t.1 < n) ∧
    (∀ t ∈ trims.drop (m + 1), t.1 = 0) ∧
    ∀ q, preSkip = some q → before + (trims.map (·.1)).sum ≤ q ∧
      (m < trims.length → before + (trims.map (·.1)).sum = q)

variable {n before : Nat} {preSkip : Option Nat} {t : Nat × Nat} {rest : List (Nat × Nat)}

theorem endsCons : (∀ u ∈ (t :: rest).dropLast, u.2 = 0) ↔ (rest ≠ [] → t.2 = 0) ∧ ∀ u ∈ rest.dropLast, u.2 = 0 := by
  cases rest with
  | nil => simp
  | cons u rest =>
    rw [List.dropLast_cons_of_ne_nil (List.cons_ne_nil _ _), List.forall_mem_cons]
    exact and_congr_left fun _ => ⟨fun ends _ => ends, fun ends => ends (List.cons_ne_nil _ _)⟩

theorem untrimmedCons : Untrimmed n (t :: rest) ↔
    t.1 + t.2 ≤ n ∧ (rest ≠ [] → t.2 = 0) ∧ t.1 = 0 ∧ Untrimmed n rest := by
  constructor
  · intro ⟨fits, ends, starts⟩
    rw [List.forall_mem_cons] at fits starts
    rw [endsCons] at ends
    exact ⟨fits.1, ends.1, starts.1, fits.2, ends.2, starts.2⟩
  · intro ⟨fit, end', start, fits, ends, starts⟩
    exact ⟨List.forall_mem_cons.mpr ⟨fit, fits⟩, endsCons.mpr ⟨end', ends⟩, List.forall_mem_cons.mpr ⟨start, starts⟩⟩

theorem untrimmedSum (untrimmed : Untrimmed n rest) : (rest.map (·.1)).sum = 0 := by
  refine List.sum_eq_zero fun s among => ?_
  obtain ⟨t, inside, rfl⟩ := List.mem_map.mp among
  exact untrimmed.starts t inside

theorem timelineNil : TrimTimeline n preSkip before [] ↔ ∀ q, preSkip = some q → before ≤ q := by
  constructor
  · intro ⟨_, _, m, _, _, _, _, spent⟩ q skip
    exact (spent q skip).1
  · intro spent
    exact ⟨nofun, nofun, 0, Nat.le_refl _, nofun, nofun, nofun, fun q skip => ⟨spent q skip, nofun⟩⟩

theorem timelineCons : TrimTimeline n preSkip before (t :: rest) ↔ t.1 + t.2 ≤ n ∧ (rest ≠ [] → t.2 = 0) ∧
    (t.1 = n ∧ TrimTimeline n preSkip (before + t.1) rest ∨
      t.1 < n ∧ (∀ q, preSkip = some q → before + t.1 = q) ∧ Untrimmed n rest) := by
  constructor
  · intro ⟨fits, ends, m, inside, full, next, later, spent⟩
    rw [List.forall_mem_cons] at fits
    rw [endsCons] at ends
    refine ⟨fits.1, ends.1, ?_⟩
    rw [List.map_cons, List.sum_cons, List.length_cons] at spent
    cases m with
    | zero =>
      have untrimmed : Untrimmed n rest := ⟨fits.2, ends.2, later⟩
      have sum := untrimmedSum untrimmed
      refine .inr ⟨next t rfl, fun q skip => ?_, untrimmed⟩
      have whole := (spent q skip).2 (Nat.succ_pos _)
      omega
    | succ m =>
      rw [List.take_succ_cons, List.forall_mem_cons] at full
      refine .inl ⟨full.1, fits.2, ends.2, m, Nat.le_of_succ_le_succ inside, full.2, next, later, fun q skip => ?_⟩
      rw [Nat.add_assoc]
      exact ⟨(spent q skip).1, fun more => (spent q skip).2 (Nat.succ_lt_succ more)⟩
  · intro ⟨fit, end', rest'⟩
    rcases rest' with ⟨whole, fits, ends, m, inside, full, next, later, spent⟩ | ⟨short, skipped, untrimmed⟩
    · refine ⟨List.forall_mem_cons.mpr ⟨fit, fits⟩, endsCons.mpr ⟨end', ends⟩, m + 1, Nat.succ_le_succ inside, ?_, next,
        later, fun q skip => ?_⟩
      · rw [List.take_succ_cons, List.forall_mem_cons]
        exact ⟨whole, full⟩
      · rw [List.map_cons, List.sum_cons, List.length_cons, ← Nat.add_assoc]
        exact ⟨(spent q skip).1, fun more => (spent q skip).2 (Nat.lt_of_succ_lt_succ more)⟩
    · have sum := untrimmedSum untrimmed
      refine ⟨List.forall_mem_cons.mpr ⟨fit, untrimmed.fits⟩, endsCons.mpr ⟨end', untrimmed.ends⟩, 0, Nat.zero_le _, nofun,
        fun u first => Option.some.inj first ▸ short, untrimmed.starts, fun q skip => ?_⟩
      have whole := skipped q skip
      rw [List.map_cons, List.sum_cons, sum]
      exact ⟨by omega, fun _ => by omega⟩

theorem TemporalUnitInput.trimsAre (input : TemporalUnitInput) : input.trims =
    ((input.trimming.elim 0 (·.atStart)).toNat, (input.trimming.elim 0 (·.atEnd)).toNat) := by
  unfold TemporalUnitInput.trims
  cases input.trimming <;> rfl

theorem temporalTrimmingOk {t : Option Trimming} {c : CodecConfig} : validateTemporalTrimming t c = .ok () ↔
    t.elim 0 (·.atStart.toNat) + t.elim 0 (·.atEnd.toNat) ≤ c.numSamplesPerFrame.toNat := by
  unfold validateTemporalTrimming
  rw [guardedOk]
  cases t with
  | none => exact iff_of_true rfl (Nat.zero_le _)
  | some trim =>
    have limit := c.numSamplesPerFrame.toNat_lt
    unfold u32CheckedAdd u32Max
    simp only [Option.all_some, Option.elim_some]
    split_ifs with room
    · have sum : (trim.atStart + trim.atEnd).toNat = trim.atStart.toNat + trim.atEnd.toNat := by
        rw [UInt32.toNat_add]
        exact Nat.mod_eq_of_lt (Nat.lt_succ_of_le room)
      rw [Option.any_some, decide_eq_true_iff, UInt32.le_iff_toNat_le, sum]
    · exact iff_of_false (by simp) (by omega)

namespace Encoder

variable {encoder : Encoder} {progress next : TemporalProgress} {input : TemporalUnitInput}

structure StartsOpen (encoder : Encoder) (progress : TemporalProgress) (before : Nat) : Prop where
  opened : progress.startTrimOpen = true
  going : progress.endTrimmed = false
  total : ∀ q, encoder.opusPreSkip = some q → progress.startTrimTotal.toNat = before

structure StartsOver (progress : TemporalProgress) (ended : Prop) : Prop where
  closed : progress.startTrimOpen = false
  ends : progress.endTrimmed = true ↔ ended

theorem addStartTrimOpus {q : UInt16} {atStart total : UInt32} {still : Bool} (skip : encoder.opusPreSkip = some q)
    (opened : progress.startTrimOpen = true) : encoder.addStartTrim progress atStart still = .ok total ↔
      total.toNat = progress.startTrimTotal.toNat + atStart.toNat ∧ total.toNat ≤ q.toNat ∧
        (still = false → total.toNat = q.toNat) := by
  have small := q.toNat_lt
  have widened : q.toUInt32.toNat = q.toNat := UInt16.toNat_toUInt32 q
  have sum (room : progress.startTrimTotal.toNat + atStart.toNat ≤ u32Max) :
      (progress.startTrimTotal + atStart).toNat = progress.startTrimTotal.toNat + atStart.toNat := by
    rw [UInt32.toNat_add]
    exact Nat.mod_eq_of_lt (Nat.lt_succ_of_le room)
  unfold addStartTrim u32CheckedAdd
  simp only [skip, opened]
  split_ifs with room
  · constructor
    · intro ok
      obtain ⟨_, below, ok⟩ := exceptBindOk ok
      obtain ⟨_, whole, ok⟩ := exceptBindOk ok
      cases ok
      have le : progress.startTrimTotal + atStart ≤ q.toUInt32 := of_decide_eq_true (guardedOk.mp below)
      refine ⟨sum room, widened ▸ UInt32.le_iff_toNat_le.mp le, fun short => ?_⟩
      have same := guardedOk.mp whole
      rw [short, Bool.false_or, beq_iff_eq] at same
      rw [same, widened]
    · intro ⟨same, below, whole⟩
      have equal : total = progress.startTrimTotal + atStart := UInt32.toNat_inj.mp (same.trans (sum room).symm)
      subst equal
      have le : progress.startTrimTotal + atStart ≤ q.toUInt32 := UInt32.le_iff_toNat_le.mpr (widened ▸ below)
      have full : (still || progress.startTrimTotal + atStart == q.toUInt32) = true := by
        cases still with
        | true => rfl
        | false => exact beq_iff_eq.mpr (UInt32.toNat_inj.mp ((whole rfl).trans widened.symm))
      exact (exceptBindOf _ (guardedOk.mpr (decide_eq_true le))).trans (exceptBindOf _ (guardedOk.mpr full))
  · refine iff_of_false nofun fun ⟨same, below, _⟩ => room ?_
    unfold u32Max
    omega

theorem addStartTrimOther {atStart : UInt32} {still : Bool}
    (none : encoder.opusPreSkip = none ∨ progress.startTrimOpen = false) :
    encoder.addStartTrim progress atStart still = .ok progress.startTrimTotal := by
  unfold addStartTrim
  split
  · rename_i skip opened
    rcases none with none | closed
    · rw [skip] at none
      cases none
    · rw [opened] at closed
      cases closed
  · rfl

theorem advanceTrimmingOk {trimming : Option Trimming} : encoder.advanceTrimming progress trimming = .ok next ↔
    progress.endTrimmed = false ∧ (0 < (trimming.elim 0 (·.atStart)).toNat → progress.startTrimOpen = true) ∧
    ∃ total, encoder.addStartTrim progress (trimming.elim 0 (·.atStart))
        (progress.startTrimOpen && some (trimming.elim 0 (·.atStart)) == encoder.frameSize) = .ok total ∧
      next = { progress with
        startTrimOpen := progress.startTrimOpen && some (trimming.elim 0 (·.atStart)) == encoder.frameSize
        endTrimmed := trimming.elim 0 (·.atEnd) > 0
        startTrimTotal := total } := by
  have late : (!(decide (trimming.elim 0 (·.atStart) > 0) && !progress.startTrimOpen)) = true ↔
      (0 < (trimming.elim 0 (·.atStart)).toNat → progress.startTrimOpen = true) := by
    cases progress.startTrimOpen with
    | true => simp
    | false =>
      rw [Bool.not_false, Bool.and_true, Bool.not_eq_true', decide_eq_false_iff_not]
      exact ⟨fun zero positive => absurd positive zero, fun zero positive => nomatch zero positive⟩
  constructor
  · intro ok
    obtain ⟨_, going, ok⟩ := exceptBindOk ok
    obtain ⟨_, opened, ok⟩ := exceptBindOk ok
    obtain ⟨total, added, ok⟩ := exceptBindOk ok
    cases ok
    exact ⟨Bool.not_eq_true' _ ▸ guardedOk.mp going, late.mp (guardedOk.mp opened), total, added, rfl⟩
  · intro ⟨going, opened, total, added, same⟩
    unfold advanceTrimming
    rw [exceptBindOf _ (guardedOk.mpr (Bool.not_eq_true' _ ▸ going)), exceptBindOf _ (guardedOk.mpr (late.mpr opened)),
      exceptBindOf _ added, same]

variable {n : UInt32} {before : Nat} {ended : Prop}

theorem addStartTrimOpen (state : encoder.StartsOpen progress before) {atStart : UInt32} {still : Bool} :
    (∃ total, encoder.addStartTrim progress atStart still = .ok total) ↔ ∀ q, encoder.opusPreSkip = some q →
      before + atStart.toNat ≤ q.toNat ∧ (still = false → before + atStart.toNat = q.toNat) := by
  cases skip : encoder.opusPreSkip with
  | none => exact iff_of_true ⟨_, addStartTrimOther (.inl skip)⟩ nofun
  | some q =>
    have same := state.total q skip
    constructor
    · intro ⟨total, ok⟩ other equal
      cases equal
      obtain ⟨sum, below, whole⟩ := (addStartTrimOpus skip state.opened).mp ok
      rw [sum, same] at below whole
      exact ⟨below, whole⟩
    · intro room
      obtain ⟨below, whole⟩ := room q rfl
      have small := q.toNat_lt
      refine ⟨UInt32.ofNat (before + atStart.toNat), (addStartTrimOpus skip state.opened).mpr ?_⟩
      rw [UInt32.toNat_ofNat', Nat.mod_eq_of_lt (by omega), same]
      exact ⟨rfl, below, whole⟩

theorem advanceOpen (state : encoder.StartsOpen progress before) :
    (∃ next, encoder.advanceTrimming progress input.trimming = .ok next) ↔
    ∀ q, encoder.opusPreSkip = some q → before + input.trims.1 ≤ q.toNat ∧
      (some (input.trimming.elim 0 (·.atStart)) ≠ encoder.frameSize → before + input.trims.1 = q.toNat) := by
  have still : (progress.startTrimOpen && some (input.trimming.elim 0 (·.atStart)) == encoder.frameSize) = false ↔
      some (input.trimming.elim 0 (·.atStart)) ≠ encoder.frameSize := by
    rw [state.opened, Bool.true_and, beq_eq_false_iff_ne]
  rw [← still, input.trimsAre, ← addStartTrimOpen state]
  constructor
  · intro ⟨next, ok⟩
    obtain ⟨_, _, total, added, _⟩ := advanceTrimmingOk.mp ok
    exact ⟨total, added⟩
  · intro ⟨total, added⟩
    exact ⟨_, advanceTrimmingOk.mpr ⟨state.going, fun _ => state.opened, total, added, rfl⟩⟩

theorem openBehind (state : encoder.StartsOpen progress before) (size : encoder.frameSize = some n)
    (fit : input.trims.1 + input.trims.2 ≤ n.toNat) (whole : input.trims.1 = n.toNat)
    (ok : encoder.advanceTrimming progress input.trimming = .ok next) :
    encoder.StartsOpen next (before + input.trims.1) := by
  rw [input.trimsAre] at fit whole ⊢
  obtain ⟨_, _, total, added, rfl⟩ := advanceTrimmingOk.mp ok
  refine ⟨?_, decide_eq_false fun more => ?_, fun q skip => ?_⟩
  · rw [state.opened, size, UInt32.toNat_inj.mp whole, Bool.true_and, beq_self_eq_true]
  · have positive : 0 < (input.trimming.elim 0 (·.atEnd)).toNat := more
    omega
  · rw [((addStartTrimOpus skip state.opened).mp added).1, state.total q skip]

theorem overBehind (size : encoder.frameSize = some n)
    (short : input.trims.1 < n.toNat) (ok : encoder.advanceTrimming progress input.trimming = .ok next) :
    StartsOver next (0 < input.trims.2) := by
  rw [input.trimsAre] at short ⊢
  obtain ⟨_, _, total, added, rfl⟩ := advanceTrimmingOk.mp ok
  refine ⟨?_, decide_eq_true_iff⟩
  rw [size, Bool.and_eq_false_iff]
  exact .inr (beq_eq_false_iff_ne.mpr fun same => (Nat.ne_of_lt short) (congrArg UInt32.toNat (Option.some.inj same)))

theorem advanceOver (state : StartsOver progress ended) :
    (∃ next, encoder.advanceTrimming progress input.trimming = .ok next) ↔ ¬ ended ∧ input.trims.1 = 0 := by
  rw [input.trimsAre, ← state.ends, Bool.not_eq_true]
  constructor
  · intro ⟨next, ok⟩
    obtain ⟨going, opened, _⟩ := advanceTrimmingOk.mp ok
    refine ⟨going, Nat.eq_zero_of_not_pos fun positive => ?_⟩
    rw [state.closed] at opened
    cases opened positive
  · intro ⟨going, zero⟩
    refine ⟨_, advanceTrimmingOk.mpr ⟨going, fun positive => ?_, _, addStartTrimOther (.inr state.closed), rfl⟩⟩
    exact absurd positive (Nat.not_lt.mpr zero.le)

theorem stillOver (state : StartsOver progress ended)
    (ok : encoder.advanceTrimming progress input.trimming = .ok next) : StartsOver next (0 < input.trims.2) := by
  rw [input.trimsAre]
  obtain ⟨_, _, total, added, rfl⟩ := advanceTrimmingOk.mp ok
  exact ⟨by rw [state.closed]; rfl, decide_eq_true_iff⟩

theorem trimmingFitsIs {b : EncoderBuilder} {manifest : IdManifest} (built : Built b encoder manifest)
    {config : CodecConfig} (configs : encoder.descriptors.codecConfigs = [config]) (sound : encoder.Sound input) :
    encoder.TrimmingFits input ↔ input.trims.1 + input.trims.2 ≤ config.numSamplesPerFrame.toNat := by
  have valid := temporalTrimmingOk (t := input.trimming) (c := config)
  have planned {entry : (SubstreamHandle × FrameInput) × UInt32}
      (among : entry ∈ input.frames.zip encoder.declaredSubstreams) {config' : CodecConfig} {channels : UInt8}
      (plan : encoder.substreamPlan entry.2 = .ok (config', channels)) : config' = config := by
    obtain ⟨_, _, checked⟩ := sound.frames entry among
    exact built.declaredConfig configs checked.declared plan
  unfold TemporalUnitInput.trims
  rw [← valid]
  constructor
  · intro fits
    have frames : input.frames.zip encoder.declaredSubstreams ≠ [] := by
      intro none
      have length := congrArg List.length none
      rw [List.length_zip, sound.count, Nat.min_self] at length
      exact built.hasSubstream (List.length_eq_zero_iff.mp length)
    obtain ⟨entry, among⟩ := List.exists_mem_of_ne_nil _ frames
    obtain ⟨config', channels, checked⟩ := sound.frames entry among
    exact planned among checked.plan ▸ fits entry among config' channels checked.plan
  · intro ok entry among config' channels plan
    exact planned among plan ▸ ok

structure Ready (encoder : Encoder) (progress : TemporalProgress) (inputs : List TemporalUnitInput) : Prop where
  each : ∀ input ∈ inputs, encoder.Sound input
  covered : ∀ input ∈ inputs, ∀ other ∈ inputs, ∀ id,
    id ∈ blockIds input.parameterBlocks ↔ id ∈ blockIds other.parameterBlocks
  known : ∀ ids, progress.parameterIds = some ids → ids.Nodup ∧
    ∀ input ∈ inputs, ∀ id, id ∈ blockIds input.parameterBlocks ↔ id ∈ ids

variable {inputs : List TemporalUnitInput}

theorem readyCovers (ready : encoder.Ready progress (input :: inputs)) :
    ∃ ids, checkCoverage progress.parameterIds (blockIds input.parameterBlocks) = .ok ids := by
  refine ⟨_, checkCoverageOk.mpr ⟨rfl, fun ids known => ?_⟩⟩
  obtain ⟨once, same⟩ := ready.known ids known
  have alike := same input List.mem_cons_self
  have distinct := (ready.each input List.mem_cons_self).distinct
  exact ⟨((List.perm_ext_iff_of_nodup distinct once).mpr alike).length_eq, fun id => (alike id).mp⟩

theorem preflightReady (ready : encoder.Ready progress (input :: inputs)) :
    (∃ next, encoder.preflight progress input = .ok (encoder.lowered input, next)) ↔
      encoder.TrimmingFits input ∧ ∃ trimmed, encoder.advanceTrimming progress input.trimming = .ok trimmed := by
  constructor
  · intro ⟨next, ok⟩
    obtain ⟨_, fits, _, trimmed, _, advanced, _⟩ := preflightOk.mp ok
    exact ⟨fits, trimmed, advanced⟩
  · intro ⟨fits, trimmed, advanced⟩
    obtain ⟨ids, covers⟩ := readyCovers ready
    exact ⟨_, preflightOk.mpr ⟨ready.each input List.mem_cons_self, fits, rfl, trimmed, ids, advanced, covers, rfl⟩⟩

theorem readyBehind (ready : encoder.Ready progress (input :: inputs)) {unit : TemporalUnit}
    (ok : encoder.preflight progress input = .ok (unit, next)) : encoder.Ready next inputs ∧
      unit = encoder.lowered input ∧ encoder.TrimmingFits input ∧ ∃ trimmed ids,
        encoder.advanceTrimming progress input.trimming = .ok trimmed ∧ next = { trimmed with parameterIds := some ids } := by
  obtain ⟨sound, fits, rfl, trimmed, ids, advanced, covers, rfl⟩ := preflightOk.mp ok
  obtain ⟨rfl, _⟩ := checkCoverageOk.mp covers
  refine ⟨⟨fun other among => ready.each other (List.mem_cons_of_mem _ among), fun x amongX y amongY =>
    ready.covered x (List.mem_cons_of_mem _ amongX) y (List.mem_cons_of_mem _ amongY), fun ids same => ?_⟩, rfl, fits,
    trimmed, _, advanced, rfl⟩
  cases same
  cases known : progress.parameterIds with
  | none =>
    exact ⟨sound.distinct, fun other among =>
      ready.covered other (List.mem_cons_of_mem _ among) input List.mem_cons_self⟩
  | some expected =>
    obtain ⟨once, same⟩ := ready.known expected known
    exact ⟨once, fun other among => same other (List.mem_cons_of_mem _ among)⟩

section

variable {b : EncoderBuilder} {manifest : IdManifest} (built : Built b encoder manifest) {config : CodecConfig}
  (configs : encoder.descriptors.codecConfigs = [config])

theorem mapEmpty : inputs.map (·.trims) ≠ [] ↔ inputs ≠ [] := not_congr List.map_eq_nil_iff

include built configs

theorem lowersOver (ready : encoder.Ready progress inputs) (state : StartsOver progress ended) :
    (∃ last, encoder.Lowers progress inputs (inputs.map encoder.lowered) last) ↔
      (inputs ≠ [] → ¬ ended) ∧ Untrimmed config.numSamplesPerFrame.toNat (inputs.map (·.trims)) := by
  induction inputs generalizing progress ended with
  | nil => exact iff_of_true ⟨_, .nil⟩ ⟨fun some' => absurd rfl some', nofun, nofun, nofun⟩
  | cons input inputs ih =>
    have fitsIs := trimmingFitsIs built configs (ready.each input List.mem_cons_self)
    rw [List.map_cons, List.map_cons, untrimmedCons, mapEmpty, ← fitsIs]
    constructor
    · intro ⟨last, lowers⟩
      cases lowers with
      | cons head tail =>
      obtain ⟨ready', _, fits, trimmed, ids, advanced, rfl⟩ := readyBehind ready head
      obtain ⟨going, zero⟩ := (advanceOver state).mp ⟨trimmed, advanced⟩
      obtain ⟨closed, ends⟩ := stillOver state advanced
      obtain ⟨last', rest⟩ := (ih ready' ⟨closed, ends⟩).mp ⟨last, tail⟩
      exact ⟨fun _ => going, fits, fun more => Nat.eq_zero_of_not_pos (last' more), zero, rest⟩
    · intro ⟨going, fits, last', zero, rest⟩
      obtain ⟨next, head⟩ := (preflightReady ready).mpr
        ⟨fits, (advanceOver state).mpr ⟨going (List.cons_ne_nil _ _), zero⟩⟩
      obtain ⟨ready', _, _, trimmed, ids, advanced, rfl⟩ := readyBehind ready head
      obtain ⟨closed, ends⟩ := stillOver state advanced
      obtain ⟨last, tail⟩ := (ih ready' ⟨closed, ends⟩).mpr ⟨fun more => (last' more).not_gt, rest⟩
      exact ⟨last, .cons head tail⟩

theorem lowersOpen (ready : encoder.Ready progress inputs) (state : encoder.StartsOpen progress before)
    (spent : ∀ q, encoder.opusPreSkip = some q → before ≤ q.toNat) :
    (∃ last, encoder.Lowers progress inputs (inputs.map encoder.lowered) last) ↔
      TrimTimeline config.numSamplesPerFrame.toNat (encoder.opusPreSkip.map (·.toNat)) before (inputs.map (·.trims)) := by
  have size := frameSizeOf configs
  have skips {P : Nat → Prop} : (∀ q, encoder.opusPreSkip.map (·.toNat) = some q → P q) ↔
      ∀ q, encoder.opusPreSkip = some q → P q.toNat := by
    simp
  induction inputs generalizing progress before with
  | nil =>
    rw [List.map_nil, List.map_nil, timelineNil, skips]
    exact iff_of_true ⟨_, .nil⟩ spent
  | cons input inputs ih =>
    have fitsIs := trimmingFitsIs built configs (ready.each input List.mem_cons_self)
    have whole : some (input.trimming.elim 0 (·.atStart)) ≠ encoder.frameSize ↔
        input.trims.1 ≠ config.numSamplesPerFrame.toNat := by
      rw [size, input.trimsAre, not_iff_not, Option.some.injEq, ← UInt32.toNat_inj]
    rw [List.map_cons, List.map_cons, timelineCons, mapEmpty, ← fitsIs, skips]
    constructor
    · intro ⟨last, lowers⟩
      cases lowers with
      | cons head tail =>
      obtain ⟨ready', _, fits, trimmed, ids, advanced, rfl⟩ := readyBehind ready head
      have fit := fitsIs.mp fits
      have room := (advanceOpen state).mp ⟨trimmed, advanced⟩
      by_cases full : input.trims.1 = config.numSamplesPerFrame.toNat
      · obtain ⟨opened, going, total⟩ := openBehind state size fit full advanced
        have rest := (ih ready' ⟨opened, going, total⟩ fun q skip => (room q skip).1).mp ⟨last, tail⟩
        exact ⟨fits, fun _ => by omega, .inl ⟨full, rest⟩⟩
      · obtain ⟨closed, ends⟩ := overBehind size (by omega) advanced
        obtain ⟨last', rest⟩ := (lowersOver built configs ready' ⟨closed, ends⟩).mp ⟨last, tail⟩
        exact ⟨fits, fun more => Nat.eq_zero_of_not_pos (last' more),
          .inr ⟨by omega, fun q skip => (room q skip).2 (whole.mpr full), rest⟩⟩
    · intro ⟨fits, last', rest⟩
      have fit := fitsIs.mp fits
      rcases rest with ⟨full, rest⟩ | ⟨short, skipped, rest⟩
      · have below : ∀ q, encoder.opusPreSkip = some q → before + input.trims.1 ≤ q.toNat := by
          obtain ⟨_, _, _, _, _, _, _, total⟩ := rest
          refine skips.mp fun q skip => ?_
          have most := (total q skip).1
          omega
        obtain ⟨next, head⟩ := (preflightReady ready).mpr ⟨fits, (advanceOpen state).mpr fun q skip =>
          ⟨below q skip, fun other => absurd full (whole.mp other)⟩⟩
        obtain ⟨ready', _, _, trimmed, ids, advanced, rfl⟩ := readyBehind ready head
        obtain ⟨opened, going, total⟩ := openBehind state size fit full advanced
        obtain ⟨last, tail⟩ := (ih ready' ⟨opened, going, total⟩ below).mpr rest
        exact ⟨last, .cons head tail⟩
      · obtain ⟨next, head⟩ := (preflightReady ready).mpr ⟨fits, (advanceOpen state).mpr fun q skip =>
          ⟨(skipped q skip).le, fun _ => skipped q skip⟩⟩
        obtain ⟨ready', _, _, trimmed, ids, advanced, rfl⟩ := readyBehind ready head
        obtain ⟨closed, ends⟩ := overBehind size short advanced
        obtain ⟨last, tail⟩ := (lowersOver built configs ready' ⟨closed, ends⟩).mpr
          ⟨fun more => (last' more).not_gt, rest⟩
        exact ⟨last, .cons head tail⟩

omit built configs in
theorem overToEnd {units : List TemporalUnit} {last : TemporalProgress} (lowers : encoder.Lowers progress inputs units last)
    (closed : progress.startTrimOpen = false) : last.startTrimOpen = false := by
  induction lowers with
  | nil => exact closed
  | cons head tail ih =>
    obtain ⟨_, _, _, trimmed, ids, advanced, _, rfl⟩ := preflightOk.mp head
    obtain ⟨_, _, total, _, rfl⟩ := advanceTrimmingOk.mp advanced
    exact ih (by simp only [closed, Bool.false_and])

theorem trimmedAtEnd {units : List TemporalUnit} {last : TemporalProgress} {q : UInt16}
    (lowers : encoder.Lowers progress inputs units last) (ready : encoder.Ready progress inputs)
    (state : encoder.StartsOpen progress before) (skip : encoder.opusPreSkip = some q) :
    (last.startTrimOpen && last.startTrimTotal != q.toUInt32) = false ↔
      before + ((inputs.map (·.trims)).map (·.1)).sum = q.toNat := by
  have size := frameSizeOf configs
  induction lowers generalizing before with
  | @nil progress =>
    have widened : q.toUInt32.toNat = q.toNat := UInt16.toNat_toUInt32 q
    have equal : progress.startTrimTotal = q.toUInt32 ↔ progress.startTrimTotal.toNat = q.toNat := by
      rw [← UInt32.toNat_inj, widened]
    rw [state.opened, Bool.true_and, bne_eq_false_iff_eq, equal, state.total q skip]
    rfl
  | @cons progress input inputs unit units next last head tail ih =>
    have fitsIs := trimmingFitsIs built configs (ready.each input List.mem_cons_self)
    obtain ⟨ready', _, fits, trimmed, ids, advanced, rfl⟩ := readyBehind ready head
    have fit := fitsIs.mp fits
    rw [List.map_cons, List.map_cons, List.sum_cons]
    by_cases full : input.trims.1 = config.numSamplesPerFrame.toNat
    · obtain ⟨opened, going, total⟩ := openBehind state size fit full advanced
      rw [← Nat.add_assoc]
      exact ih ready' ⟨opened, going, total⟩
    · obtain ⟨closed, ends⟩ := overBehind size (by omega) advanced
      have other : some (input.trimming.elim 0 (·.atStart)) ≠ encoder.frameSize := by
        rw [size]
        intro same
        rw [input.trimsAre] at full
        exact full (congrArg UInt32.toNat (Option.some.inj same))
      have skipped := ((advanceOpen state).mp ⟨trimmed, advanced⟩ q skip).2 other
      have lowered := (lowersAre tail).1
      rw [lowered] at tail
      obtain ⟨_, rest⟩ := (lowersOver built configs ready' ⟨closed, ends⟩).mp ⟨last, tail⟩
      rw [overToEnd tail closed, Bool.false_and, untrimmedSum rest]
      exact iff_of_true rfl skipped

end

/-- Units that pass every check but, maybe, those on trimming, and whose bytes can be written and counted. -/
structure PassesOtherwise (encoder : Encoder) (inputs : List TemporalUnitInput) : Prop where
  each : ∀ input ∈ inputs, encoder.Sound input
  covered : ∀ input ∈ inputs, ∀ other ∈ inputs, ∀ id,
    id ∈ blockIds input.parameterBlocks ↔ id ∈ blockIds other.parameterBlocks
  written : ∃ prologue bytes, finishWriter (writeDescriptors encoder.descriptors) = .ok prologue ∧
    UnitBytes (.fromDescriptors encoder.descriptors) (inputs.map encoder.lowered) bytes ∧
    prologue.length + bytes.length ≤ u64Max

theorem passesReady (passes : encoder.PassesOtherwise inputs) : encoder.Ready .initial inputs :=
  ⟨passes.each, passes.covered, nofun⟩

theorem acceptsLowers (passes : encoder.PassesOtherwise inputs) :
    encoder.Accepts inputs ↔ ∃ last, encoder.Lowers .initial inputs (inputs.map encoder.lowered) last := by
  constructor
  · intro ⟨units, last, prologue, bytes, sends⟩
    exact ⟨last, (lowersAre sends.lowers).1 ▸ sends.lowers⟩
  · intro ⟨last, lowers⟩
    obtain ⟨prologue, bytes, descriptors, encodes, counted⟩ := passes.written
    exact ⟨_, last, prologue, bytes, lowers, descriptors, encodes, counted⟩

theorem acceptsPasses (accepts : encoder.Accepts inputs) : encoder.PassesOtherwise inputs := by
  obtain ⟨units, last, prologue, bytes, sends⟩ := accepts
  have alike := coveredAlike sends.lowers
  have encodes := sends.encodes
  obtain ⟨rfl, sound⟩ := lowersAre sends.lowers
  refine ⟨sound, fun input given other given' id => ?_, prologue, bytes, sends.descriptors, encodes, sends.counted⟩
  rw [← loweredIds, ← loweredIds]
  exact alike _ (List.mem_map_of_mem given) _ (List.mem_map_of_mem given') id

end Encoder

theorem initialOpen (encoder : Encoder) : encoder.StartsOpen .initial 0 := ⟨rfl, rfl, fun _ _ => rfl⟩

theorem trimTimelineAccepted {b : EncoderBuilder} {encoder : Encoder} {manifest : IdManifest}
    (ok : b.build = .ok (encoder, manifest)) {W : Sink} (all : W.AcceptsAll) {start : W.State} {w : EncodingWriter W}
    {s : SequenceWriter W} (started : encoder.start start = .ok w s) {inputs : List TemporalUnitInput}
    (passes : encoder.PassesOtherwise inputs) : ∃ config, encoder.descriptors.codecConfigs = [config] ∧
      ((∀ reply ∈ w.answers inputs, reply = .ok ()) ↔ TrimTimeline config.numSamplesPerFrame.toNat
        (config.opusConfig.map (·.preSkip.toNat)) 0 (inputs.map (·.trims))) ∧
      ((∀ reply ∈ w.answers inputs, reply = .ok ()) →
        ((EncodingWriter.outcome EncodingWriter.finish (w.after inputs)).1 = .ok () ↔
          ∀ opus, config.opusConfig = some opus →
            ((inputs.map (·.trims)).map (·.1)).sum = opus.preSkip.toNat)) := by
  have built := buildOk.mp ok
  obtain ⟨_, config, _, _, configs, _⟩ := built.oneConfig
  have skip : encoder.opusPreSkip = config.opusConfig.map (·.preSkip) := by
    unfold Encoder.opusPreSkip
    rw [configs]
    rfl
  have sent := EncodingWriter.startSent started
  have ready := Encoder.passesReady passes
  have answers : (∀ reply ∈ w.answers inputs, reply = .ok ()) ↔ encoder.Accepts inputs :=
    EncodingWriter.answersOk all sent
  refine ⟨config, configs, ?_, fun accepted => ?_⟩
  · rw [answers, Encoder.acceptsLowers passes, Encoder.lowersOpen built configs ready (initialOpen encoder)
      fun _ _ => Nat.zero_le _, skip, Option.map_map]
    rfl
  · have behind := EncodingWriter.answersSent all sent accepted
    obtain ⟨same, ⟨units, prologue, bytes, sends, _⟩, _⟩ := id behind
    have ended {q : UInt16} (skip : encoder.opusPreSkip = some q) :=
      Encoder.trimmedAtEnd built configs sends.lowers ready (initialOpen encoder) skip
    rw [(EncodingWriter.finishSent all behind).1, guardedOk, EncodingWriter.preSkipTrimmed, same]
    cases opus : config.opusConfig with
    | none =>
      rw [skip, opus]
      exact iff_of_true rfl nofun
    | some opus' =>
      rw [opus] at skip
      rw [skip, Option.map_some, Option.all_some, Bool.not_eq_true', ended skip, Nat.zero_add]
      exact ⟨fun sum other same => Option.some.inj same ▸ sum, fun sums => sums opus' rfl⟩

def opusCodec : CodecConfig := ⟨0, codecIdOpus, 960, -4, .opus ⟨1, 2, 1200, 48000, 0, 0⟩, []⟩

def declareOpus : EncoderBuilder.Declare MixPresentationHandle := do
  let codec ← EncoderBuilder.addCodecConfig opusCodec
  let element ← EncoderBuilder.addAudioElement codec (stereoElement 0)
  EncoderBuilder.addMixPresentation [element] (stereoPresentation 0)

def opusBuilder : EncoderBuilder := (declareOpus (.new 7)).2

def opusEncoder : Encoder := ⟨⟨.new 0 0, [opusCodec], [stereoElement 0], [stereoPresentation 0]⟩, 7⟩

theorem opusBuilds : ∃ manifest, opusBuilder.build = .ok (opusEncoder, manifest) := buildsTo (by decide +kernel)

def opusUnit (atStart atEnd : UInt32) : TemporalUnitInput :=
  ⟨[(⟨7, 0⟩, .opus [1, 2, 3])], [], some ⟨atEnd, atStart⟩⟩

def opusUnits : List TemporalUnitInput := [opusUnit 960 0, opusUnit 240 0, opusUnit 0 0, opusUnit 0 500]

theorem trimTimelineAcceptedOpus : ∃ w s, opusEncoder.start (W := Sink.buffer) [] = .ok w s ∧
    (∀ reply ∈ w.answers opusUnits, reply = .ok ()) ∧
    TrimTimeline 960 (some 1200) 0 [(960, 0), (240, 0), (0, 0), (0, 500)] ∧
    (EncodingWriter.outcome EncodingWriter.finish (w.after opusUnits)).1 = .ok () := by
  obtain ⟨manifest, built⟩ := opusBuilds
  obtain ⟨w, s, started, replies⟩ := @Encoder.startedOf Sink.buffer opusEncoder [] (fun w =>
    w.accepted opusUnits == opusUnits) (by decide +kernel)
  have accepts := (EncodingWriter.runSent Sink.bufferAcceptsAll (EncodingWriter.startSent started) opusUnits).1
  rw [List.nil_append, beq_iff_eq.mp replies] at accepts
  have pushed := (EncodingWriter.answersOk Sink.bufferAcceptsAll (EncodingWriter.startSent started)).mpr accepts
  obtain ⟨config, configs, timeline, finished⟩ := trimTimelineAccepted built Sink.bufferAcceptsAll started
    (Encoder.acceptsPasses accepts)
  cases List.singleton_inj.mp configs
  refine ⟨w, s, started, pushed, timeline.mp pushed, (finished pushed).mpr fun opus same => ?_⟩
  cases Option.some.inj same
  rfl

end Iamf.Wire
