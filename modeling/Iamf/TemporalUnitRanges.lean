import Iamf.DescriptorSet
import Iamf.Ranges

/-! Where the temporal units of a flat sequence begin and end. Without delimiters a unit ends
before a block behind a frame, or before a frame of a substream it already has. -/
namespace Iamf.Wire

namespace SequenceObu

def isTemporalDelimiter : SequenceObu → Bool
  | .temporalDelimiter _ => true
  | _ => false

def isTemporal : SequenceObu → Bool
  | .parameterBlock _ | .ungovernedParameterBlock _ | .temporalDelimiter _ | .audioFrame _ => true
  | _ => false

end SequenceObu

structure Grouping where
  ranges : List Range
  start : Option Nat
  frameIds : List UInt32
  sawFrame : Bool

namespace Grouping

def new : Grouping := ⟨[], none, [], false⟩

def close (g : Grouping) (index : Nat) : List Range := g.ranges ++ g.start.toList.map (⟨·, index⟩)

def boundary (g : Grouping) (usesDelimiters : Bool) (obu : SequenceObu) : Bool :=
  if obu.isTemporalDelimiter then g.start.isSome
  else if usesDelimiters then false
  else
    match obu with
    | .parameterBlock _ | .ungovernedParameterBlock _ => g.sawFrame
    | .audioFrame frame => g.frameIds.contains frame.payload.substreamId
    | _ => false

def moveStart (g : Grouping) (usesDelimiters : Bool) (index : Nat) (obu : SequenceObu) : Grouping :=
  if g.boundary usesDelimiters obu then ⟨g.close index, some index, [], false⟩
  else if g.start.isNone && obu.isTemporal then { g with start := some index }
  else g

def recordFrame (g : Grouping) : SequenceObu → Grouping
  | .audioFrame frame => { g with sawFrame := true, frameIds := g.frameIds ++ [frame.payload.substreamId] }
  | _ => g

def step (g : Grouping) (usesDelimiters : Bool) (index : Nat) (obu : SequenceObu) : Grouping :=
  (g.moveStart usesDelimiters index obu).recordFrame obu

def scan (usesDelimiters : Bool) : Nat → Grouping → List SequenceObu → Grouping
  | _, g, [] => g
  | index, g, obu :: obus => scan usesDelimiters (index + 1) (g.step usesDelimiters index obu) obus

end Grouping

def ParsedSequence.temporalUnitRanges (s : ParsedSequence) : List Range :=
  (Grouping.scan (s.obus.any (·.isTemporalDelimiter)) 0 .new s.obus).close s.obus.length

def ParsedSequence.within (s : ParsedSequence) (range : Range) : List SequenceObu :=
  (s.obus.drop range.start).take (range.stop - range.start)

def unitRanges : Nat → List TemporalUnit → List Range
  | _, [] => []
  | start, unit :: units => ⟨start, start + unit.obus.length⟩ :: unitRanges (start + unit.obus.length) units

def TemporalUnit.substreamIds (unit : TemporalUnit) : List UInt32 := unit.audioFrames.map (·.payload.substreamId)

/-- The units can be told apart in the flat form: every one begins with a delimiter, or none has one and
all have the same substreams, at least one and each of them once. -/
def Separable (units : List TemporalUnit) : Prop :=
  (∀ unit ∈ units, unit.temporalDelimiter.isSome) ∨
    (∀ unit ∈ units, unit.temporalDelimiter = none ∧ unit.substreamIds ≠ [] ∧ unit.substreamIds.Nodup) ∧
      ∀ unit ∈ units, ∀ other ∈ units, ∀ id ∈ unit.substreamIds, id ∈ other.substreamIds

namespace Grouping

theorem scanAppend (usesDelimiters : Bool) (index : Nat) (g : Grouping) (xs ys : List SequenceObu) :
    scan usesDelimiters index g (xs ++ ys) =
      scan usesDelimiters (index + xs.length) (scan usesDelimiters index g xs) ys := by
  induction xs generalizing index g with
  | nil => rfl
  | cons x xs ih =>
    simp only [List.cons_append, scan, ih, List.length_cons]
    congr 1
    omega

theorem stepDescriptor {obu : SequenceObu} (still : obu.isTemporal = false) (g : Grouping) (usesDelimiters : Bool)
    (index : Nat) : g.step usesDelimiters index obu = g := by
  cases obu with
  | parameterBlock obu => cases still
  | ungovernedParameterBlock obu => cases still
  | temporalDelimiter obu => cases still
  | audioFrame obu => cases still
  | _ => simp [step, moveStart, boundary, recordFrame, SequenceObu.isTemporalDelimiter, SequenceObu.isTemporal]

theorem scanDescriptors (usesDelimiters : Bool) (index : Nat) (g : Grouping) {obus : List SequenceObu}
    (still : ∀ obu ∈ obus, obu.isTemporal = false) : scan usesDelimiters index g obus = g := by
  induction obus generalizing index with
  | nil => rfl
  | cons obu obus ih =>
    unfold scan
    rw [stepDescriptor (still obu (by simp))]
    exact ih _ fun other among => still other (List.mem_cons_of_mem _ among)

theorem scanDelimited {g : Grouping} (opened : g.start.isSome) (index : Nat) {obus : List SequenceObu}
    (none : ∀ obu ∈ obus, obu.isTemporalDelimiter = false) :
    (scan true index g obus).ranges = g.ranges ∧ (scan true index g obus).start = g.start := by
  induction obus generalizing g index with
  | nil => exact ⟨rfl, rfl⟩
  | cons obu obus ih =>
    unfold scan
    have moved : g.moveStart true index obu = g := by
      have inside : g.boundary true obu = false := by simp [boundary, none obu]
      simp [moveStart, inside, Option.isNone_eq_false_iff.mpr opened]
    have kept : (g.step true index obu).ranges = g.ranges ∧ (g.step true index obu).start = g.start := by
      unfold step
      rw [moved]
      cases obu <;> exact ⟨rfl, rfl⟩
    obtain ⟨ranges, start⟩ := ih (g := g.step true index obu) (by rw [kept.2]; exact opened) (index + 1)
      fun other among => none other (List.mem_cons_of_mem _ among)
    exact ⟨ranges.trans kept.1, start.trans kept.2⟩

theorem stepDelimiter (g : Grouping) (usesDelimiters : Bool) (index : Nat) (obu : Obu TemporalDelimiter) :
    (g.step usesDelimiters index (.temporalDelimiter obu)).ranges = g.close index ∧
      (g.step usesDelimiters index (.temporalDelimiter obu)).start = some index := by
  obtain ⟨ranges, start, frameIds, sawFrame⟩ := g
  cases start with
  | none =>
    refine ⟨?_, rfl⟩
    change ranges = ranges ++ []
    rw [List.append_nil]
  | some s => exact ⟨rfl, rfl⟩

theorem unitTail (unit : TemporalUnit) (obu : SequenceObu)
    (among : obu ∈ unit.parameterBlocks.map SequenceObu.parameterBlock ++ unit.audioFrames.map .audioFrame) :
    obu.isTemporalDelimiter = false := by
  simp only [List.mem_append, List.mem_map] at among
  rcases among with ⟨_, _, rfl⟩ | ⟨_, _, rfl⟩ <;> rfl

theorem scanDelimitedUnit (g : Grouping) (index : Nat) {unit : TemporalUnit} (delimited : unit.temporalDelimiter.isSome) :
    (scan true index g unit.obus).ranges = g.close index ∧ (scan true index g unit.obus).start = some index := by
  obtain ⟨delimiter, present⟩ := Option.isSome_iff_exists.mp delimited
  unfold TemporalUnit.obus
  rw [present]
  change (scan true (index + 1) (g.step true index _) _).ranges = _ ∧ (scan true (index + 1) (g.step true index _) _).start = _
  obtain ⟨ranges, start⟩ := stepDelimiter g true index (.new (.new .temporalDelimiter) delimiter)
  obtain ⟨ranges', start'⟩ := scanDelimited (g := g.step true index (.temporalDelimiter _))
    (by rw [start]; rfl) (index + 1) (unitTail unit)
  exact ⟨ranges'.trans ranges, start'.trans start⟩

def Behind (g : Grouping) (ids : List UInt32) : Prop :=
  (g.start.isSome ∧ g.sawFrame = true ∧ ∀ id ∈ ids, id ∈ g.frameIds) ∨ g.start = none ∧ g.sawFrame = false ∧ g.frameIds = []

theorem scanFrames {g : Grouping} (opened : g.start.isSome) (index : Nat) {frames : List (Obu AudioFrame)}
    (apart : (g.frameIds ++ frames.map (·.payload.substreamId)).Nodup) :
    scan false index g (frames.map .audioFrame) = { g with
      sawFrame := g.sawFrame || !frames.isEmpty, frameIds := g.frameIds ++ frames.map (·.payload.substreamId) } := by
  induction frames generalizing g index with
  | nil => simp [scan]
  | cons frame frames ih =>
    have fresh : frame.payload.substreamId ∉ g.frameIds := by
      intro known
      have disjoint := (List.nodup_append.mp apart).2.2
      exact disjoint _ known _ (by simp) rfl
    have moved : g.moveStart false index (.audioFrame frame) = g := by
      have inside : g.boundary false (.audioFrame frame) = false := by
        simpa [boundary, SequenceObu.isTemporalDelimiter] using fresh
      simp [moveStart, inside, Option.isNone_eq_false_iff.mpr opened]
    unfold List.map scan step
    rw [moved]
    rw [ih (g := g.recordFrame (.audioFrame frame)) opened]
    · simp [recordFrame]
    · simpa [recordFrame] using apart

theorem scanBlocks {g : Grouping} (opened : g.start.isSome) (unframed : g.sawFrame = false) (index : Nat)
    (blocks : List (Obu ParameterBlock)) : scan false index g (blocks.map .parameterBlock) = g := by
  induction blocks generalizing index with
  | nil => rfl
  | cons block blocks ih =>
    have moved : g.step false index (.parameterBlock block) = g := by
      simp [step, moveStart, boundary, recordFrame, SequenceObu.isTemporalDelimiter, unframed,
        Option.isNone_eq_false_iff.mpr opened]
    unfold List.map scan
    rw [moved, ih]

theorem moveBehind {g : Grouping} {ids : List UInt32} (behind : g.Behind ids) (index : Nat) {obu : SequenceObu}
    (first : (∃ block, obu = .parameterBlock block) ∨ ∃ frame, obu = .audioFrame frame ∧ frame.payload.substreamId ∈ ids) :
    g.moveStart false index obu = ⟨g.close index, some index, [], false⟩ := by
  rcases behind with ⟨opened, framed, known⟩ | ⟨none, unframed, empty⟩
  · have ends : g.boundary false obu = true := by
      rcases first with ⟨block, rfl⟩ | ⟨frame, rfl, among⟩
      · simpa [boundary, SequenceObu.isTemporalDelimiter] using framed
      · simpa [boundary, SequenceObu.isTemporalDelimiter] using known _ among
    simp [moveStart, ends]
  · have inside : g.boundary false obu = false := by
      rcases first with ⟨block, rfl⟩ | ⟨frame, rfl, among⟩
      · simpa [boundary, SequenceObu.isTemporalDelimiter] using unframed
      · simp [boundary, SequenceObu.isTemporalDelimiter, empty]
    have temporal : obu.isTemporal = true := by
      rcases first with ⟨block, rfl⟩ | ⟨frame, rfl, among⟩ <;> rfl
    obtain ⟨ranges, start, frameIds, sawFrame⟩ := g
    simp only at none unframed empty
    subst none unframed empty
    simp [moveStart, inside, temporal, close]

theorem scanUndelimitedUnit {g : Grouping} {ids : List UInt32} (behind : g.Behind ids) (index : Nat)
    {unit : TemporalUnit} (undelimited : unit.temporalDelimiter = none) (framed : unit.substreamIds ≠ [])
    (apart : unit.substreamIds.Nodup) (same : ∀ id ∈ unit.substreamIds, id ∈ ids) :
    scan false index g unit.obus = ⟨g.close index, some index, unit.substreamIds, true⟩ := by
  unfold TemporalUnit.obus
  rw [undelimited]
  change scan false index g (unit.parameterBlocks.map .parameterBlock ++ unit.audioFrames.map .audioFrame) = _
  have frames : unit.audioFrames.isEmpty = false := by
    cases shape : unit.audioFrames with
    | nil => exact absurd (by simp [TemporalUnit.substreamIds, shape]) framed
    | cons frame frames => rfl
  cases blocks : unit.parameterBlocks with
  | cons block blocks =>
    have first : g.moveStart false index (.parameterBlock block) = ⟨g.close index, some index, [], false⟩ :=
      moveBehind behind index (.inl ⟨block, rfl⟩)
    simp only [List.map_cons, List.cons_append, scan, step, recordFrame, first]
    rw [scanAppend, scanBlocks rfl rfl, scanFrames (g := ⟨g.close index, some index, [], false⟩) rfl _ apart, frames]
    rfl
  | nil =>
    cases shape : unit.audioFrames with
    | nil => simp [shape] at frames
    | cons frame frames' =>
      unfold TemporalUnit.substreamIds at apart same ⊢
      rw [shape] at apart same ⊢
      have first : g.moveStart false index (.audioFrame frame) = ⟨g.close index, some index, [], false⟩ :=
        moveBehind behind index (.inr ⟨frame, rfl, same _ (by simp)⟩)
      simp only [List.map_nil, List.nil_append, List.map_cons, scan, step, recordFrame, first]
      rw [scanFrames (g := ⟨g.close index, some index, [frame.payload.substreamId], true⟩) rfl _ apart]
      rfl

theorem scanUnits {usesDelimiters : Bool} {P : Grouping → Prop} {units : List TemporalUnit}
    (each : ∀ g index, P g → ∀ unit ∈ units, P (scan usesDelimiters index g unit.obus) ∧
      (scan usesDelimiters index g unit.obus).ranges = g.close index ∧
      (scan usesDelimiters index g unit.obus).start = some index) {g : Grouping} (holds : P g) (index : Nat) :
    (scan usesDelimiters index g (units.flatMap (·.obus))).close (index + (units.flatMap (·.obus)).length) =
      g.close index ++ unitRanges index units := by
  induction units generalizing g index with
  | nil => exact (List.append_nil _).symm
  | cons unit units ih =>
    obtain ⟨holds', ranges, start⟩ := each g index holds unit (by simp)
    have rest := ih (fun g index holds unit among => each g index holds unit (List.mem_cons_of_mem _ among)) holds'
      (index + unit.obus.length)
    rw [List.flatMap_cons, scanAppend, List.length_append, ← Nat.add_assoc, rest]
    have closed : (scan usesDelimiters index g unit.obus).close (index + unit.obus.length) =
        g.close index ++ [⟨index, index + unit.obus.length⟩] := by
      rw [close, ranges, start]
      rfl
    rw [closed, List.append_assoc]
    rfl

end Grouping

open Grouping

theorem descriptorsStill (set : DescriptorSet) : ∀ obu ∈ set.obus, obu.isTemporal = false := by
  intro obu among
  simp only [DescriptorSet.obus, List.mem_cons, List.mem_append, List.mem_map] at among
  rcases among with rfl | ⟨_, _, rfl⟩ | ⟨_, _, rfl⟩ | ⟨_, _, rfl⟩ <;> rfl

theorem delimitersOfParts {set : DescriptorSet} {units : List TemporalUnit} :
    (ParsedSequence.fromParts set units).obus.any (·.isTemporalDelimiter) =
      units.any (·.temporalDelimiter.isSome) := by
  have descriptors : set.obus.any (·.isTemporalDelimiter) = false := by
    rw [List.any_eq_false]
    intro obu among
    have still := descriptorsStill set obu among
    cases obu <;> first | simp [SequenceObu.isTemporalDelimiter]; done | cases still
  have one (unit : TemporalUnit) : unit.obus.any (·.isTemporalDelimiter) = unit.temporalDelimiter.isSome := by
    have tail : (unit.parameterBlocks.map SequenceObu.parameterBlock ++ unit.audioFrames.map SequenceObu.audioFrame).any
        (·.isTemporalDelimiter) = false := by
      rw [List.any_eq_false]
      intro obu among
      simp [unitTail unit obu among]
    rw [TemporalUnit.obus, List.any_append, tail, Bool.or_false]
    cases unit.temporalDelimiter <;> rfl
  rw [ParsedSequence.fromParts, List.any_append, descriptors, Bool.false_or, List.any_flatMap]
  simp only [one]

theorem unitRangesAre (start : Nat) (units : List TemporalUnit) :
    unitRanges start units = rangesOf start (units.map (·.obus)) := by
  induction units generalizing start with
  | nil => rfl
  | cons unit units ih => rw [unitRanges, List.map_cons, rangesOf, ih]

theorem withinUnits (before : List SequenceObu) (units : List TemporalUnit) :
    (unitRanges before.length units).map (ParsedSequence.within ⟨before ++ units.flatMap (·.obus)⟩) =
      units.map (·.obus) := by
  rw [unitRangesAre, List.flatMap_def]
  exact rangesWithin before (units.map (·.obus))

theorem temporalUnitRangesOfParts (set : DescriptorSet) {units : List TemporalUnit} (separable : Separable units) :
    (ParsedSequence.fromParts set units).temporalUnitRanges = unitRanges set.obus.length units ∧
      (ParsedSequence.fromParts set units).temporalUnitRanges.map (ParsedSequence.fromParts set units).within =
        units.map (·.obus) := by
  suffices ranges : (ParsedSequence.fromParts set units).temporalUnitRanges = unitRanges set.obus.length units from
    ⟨ranges, by rw [ranges]; exact withinUnits set.obus units⟩
  unfold ParsedSequence.temporalUnitRanges
  rw [delimitersOfParts]
  change (scan _ 0 .new (set.obus ++ units.flatMap (·.obus))).close (set.obus ++ units.flatMap (·.obus)).length = _
  rw [scanAppend, scanDescriptors _ _ _ (descriptorsStill set), List.length_append, Nat.zero_add]
  rcases separable with delimited | ⟨each, same⟩
  · cases units with
    | nil => rfl
    | cons unit units =>
      rw [List.any_cons, delimited unit (by simp), Bool.true_or]
      refine scanUnits (P := fun _ => True) (fun g index _ unit among => ⟨trivial, ?_⟩) trivial _
      exact scanDelimitedUnit g index (delimited unit among)
  · have undelimited : units.any (·.temporalDelimiter.isSome) = false := by
      rw [List.any_eq_false]
      intro unit among
      simp [(each unit among).1]
    rw [undelimited]
    refine scanUnits (P := fun g => ∀ unit ∈ units, g.Behind unit.substreamIds) (fun g index behind unit among => ?_)
      (fun _ _ => .inr ⟨rfl, rfl, rfl⟩) _
    obtain ⟨none, framed, apart⟩ := each unit among
    rw [scanUndelimitedUnit (behind unit among) index none framed apart fun id among => among]
    exact ⟨fun other among' => .inl ⟨rfl, rfl, same other among' unit among⟩, rfl, rfl⟩

theorem temporalUnitRangesOfFrames : (ParsedSequence.fromParts ⟨.new 0 0, [], [], []⟩
    [⟨none, [], [AudioFrame.intoObu ⟨3, []⟩ none]⟩, ⟨none, [.new (.new .parameterBlock) ⟨7, none, []⟩],
      [AudioFrame.intoObu ⟨3, [1]⟩ none]⟩]).temporalUnitRanges = [⟨1, 2⟩, ⟨2, 4⟩] := by
  have separable : Separable [⟨none, [], [AudioFrame.intoObu ⟨3, []⟩ none]⟩,
      ⟨none, [.new (.new .parameterBlock) ⟨7, none, []⟩], [AudioFrame.intoObu ⟨3, [1]⟩ none]⟩] :=
    .inr (by simp [TemporalUnit.substreamIds, AudioFrame.intoObu, Obu.new])
  rw [(temporalUnitRangesOfParts ⟨.new 0 0, [], [], []⟩ separable).1]
  simp [unitRanges, DescriptorSet.obus, DescriptorSet.sortedConfigs, DescriptorSet.sortedElements, sortedById,
    TemporalUnit.obus]

end Iamf.Wire
