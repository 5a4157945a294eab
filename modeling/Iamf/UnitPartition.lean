import Iamf.TemporalUnitRanges

/-! Whatever order the OBUs of a sequence come in, the ranges of its temporal units cut what begins with the
first temporal OBU into adjacent pieces. -/
namespace Iamf.Wire

namespace SequenceObu

def substreamId? : SequenceObu → Option UInt32
  | .audioFrame frame => some frame.payload.substreamId
  | _ => none

def isParameterBlock : SequenceObu → Bool
  | .parameterBlock _ | .ungovernedParameterBlock _ => true
  | _ => false

end SequenceObu

structure IsUnit (usesDelimiters : Bool) (obus : List SequenceObu) : Prop where
  filled : obus ≠ []
  delimited : ∀ obu ∈ obus.tail, obu.isTemporalDelimiter = false
  apart : usesDelimiters = false → (obus.filterMap (·.substreamId?)).Nodup
  ordered : usesDelimiters = false →
    obus.Pairwise fun earlier later => earlier.substreamId?.isSome = true → later.isParameterBlock = false

namespace Grouping

inductive Grouped (usesDelimiters : Bool) : List SequenceObu → Grouping → Prop where
  | waiting {seen} (still : ∀ obu ∈ seen, obu.isTemporal = false) : Grouped usesDelimiters seen .new
  | opened {lead units current first rest} (still : ∀ obu ∈ lead, obu.isTemporal = false)
      (whole : ∀ unit ∈ units, IsUnit usesDelimiters unit) (unit : IsUnit usesDelimiters current)
      (begins : units.flatten ++ current = first :: rest) (temporal : first.isTemporal = true) :
      Grouped usesDelimiters (lead ++ units.flatten ++ current)
        ⟨rangesOf lead.length units, some (lead.length + units.flatten.length), current.filterMap (·.substreamId?),
          current.any (·.substreamId?.isSome)⟩

variable {usesDelimiters : Bool}

theorem recorded (g : Grouping) (obu : SequenceObu) : g.recordFrame obu = { g with
    frameIds := g.frameIds ++ obu.substreamId?.toList, sawFrame := g.sawFrame || obu.substreamId?.isSome } := by
  cases obu <;> simp [recordFrame, SequenceObu.substreamId?]

theorem idsOne (obu : SequenceObu) : [obu].filterMap (·.substreamId?) = obu.substreamId?.toList := by
  cases obu <;> rfl

theorem unitOne (obu : SequenceObu) : IsUnit usesDelimiters [obu] where
  filled := List.cons_ne_nil _ _
  delimited := fun _ among => nomatch among
  apart := fun _ => by cases obu <;> simp [SequenceObu.substreamId?]
  ordered := fun _ => List.pairwise_singleton _ _

theorem unitSnoc {current : List SequenceObu} (unit : IsUnit usesDelimiters current) {g : Grouping}
    (opened : g.start.isSome = true) (ids : g.frameIds = current.filterMap (·.substreamId?))
    (saw : g.sawFrame = current.any (·.substreamId?.isSome)) {obu : SequenceObu}
    (inside : g.boundary usesDelimiters obu = false) : IsUnit usesDelimiters (current ++ [obu]) where
  filled := by simp
  delimited := by
    rw [List.tail_append_of_ne_nil unit.filled]
    refine List.forall_mem_append.mpr ⟨unit.delimited, List.forall_mem_singleton.mpr ?_⟩
    cases obu with
    | temporalDelimiter obu => exact opened.symm.trans inside
    | _ => rfl
  apart := by
    intro undelimited
    rw [List.filterMap_append, List.nodup_append]
    refine ⟨unit.apart undelimited, (unitOne obu).apart undelimited, ?_⟩
    rintro id among other here rfl
    cases obu with
    | audioFrame frame =>
      cases List.mem_singleton.mp here
      have known : g.frameIds.contains frame.payload.substreamId = true := by
        rw [ids]
        exact List.contains_iff_mem.mpr among
      subst undelimited
      exact absurd (known.symm.trans inside) (by decide)
    | _ => cases here
  ordered := by
    intro undelimited
    refine List.pairwise_append.mpr ⟨unit.ordered undelimited, List.pairwise_singleton _ _, ?_⟩
    intro earlier among later here frame
    cases List.mem_singleton.mp here
    have framed : g.sawFrame = true := saw.trans (List.any_eq_true.mpr ⟨earlier, among, frame⟩)
    subst undelimited
    cases obu with
    | parameterBlock block => exact framed.symm.trans inside
    | ungovernedParameterBlock block => exact framed.symm.trans inside
    | _ => rfl

theorem groupedStep {seen : List SequenceObu} {g : Grouping} (grouped : Grouped usesDelimiters seen g)
    (obu : SequenceObu) : Grouped usesDelimiters (seen ++ [obu]) (g.step usesDelimiters seen.length obu) := by
  cases grouped with
  | waiting still =>
    cases temporal : obu.isTemporal with
    | false =>
      rw [stepDescriptor temporal]
      exact .waiting (List.forall_mem_append.mpr ⟨still, List.forall_mem_singleton.mpr temporal⟩)
    | true =>
      have inside : Grouping.new.boundary usesDelimiters obu = false := by
        cases obu <;> cases usesDelimiters <;> rfl
      rw [step, moveStart, inside, recorded]
      have none : ∀ unit ∈ ([] : List (List SequenceObu)), IsUnit usesDelimiters unit := List.forall_mem_nil _
      have first := Grouped.opened still none (unitOne obu) rfl temporal
      simpa [temporal, new, rangesOf, idsOne] using first
  | @opened lead units current first rest still whole unit begins temporal =>
    have length : (lead ++ units.flatten ++ current).length =
        lead.length + units.flatten.length + current.length := by simp only [List.length_append]
    rw [step, moveStart, recorded, length]
    split
    · -- the open unit is whole, and the OBU opens the next one
      have flat : (units ++ [current]).flatten = units.flatten ++ current := by simp
      have all : ∀ unit ∈ units ++ [current], IsUnit usesDelimiters unit :=
        List.forall_mem_append.mpr ⟨whole, List.forall_mem_singleton.mpr unit⟩
      have next := Grouped.opened still all (unitOne obu) (by rw [flat, begins]; rfl) temporal
      rw [rangesSnoc, flat, List.length_append, ← Nat.add_assoc, ← List.append_assoc] at next
      simpa [close, idsOne] using next
    · rename_i inside
      have more := unitSnoc unit rfl rfl rfl (Bool.not_eq_true _ ▸ inside)
      have next := Grouped.opened still whole more (by rw [← List.append_assoc, begins]; rfl) temporal
      rw [← List.append_assoc] at next
      simpa [idsOne] using next

theorem groupedScan {seen : List SequenceObu} {g : Grouping} (grouped : Grouped usesDelimiters seen g)
    (obus : List SequenceObu) :
    Grouped usesDelimiters (seen ++ obus) (scan usesDelimiters seen.length g obus) := by
  induction obus generalizing seen g with
  | nil => rw [List.append_nil]; exact grouped
  | cons obu obus ih =>
    have next := ih (groupedStep grouped obu)
    rw [List.append_assoc, List.length_append] at next
    exact next

end Grouping

open Grouping

/-- The ranges are a partition of the sequence from its first temporal OBU on. -/
structure PartitionsTemporal (s : ParsedSequence) (ranges : List Range) : Prop where
  filled : ∀ range ∈ ranges, range.start < range.stop
  adjacent : ranges.IsChain fun earlier later => earlier.stop = later.start
  increasing : ranges.Pairwise fun earlier later => earlier.stop ≤ later.start
  first : ranges.head?.map (·.start) = s.obus.findIdx? (·.isTemporal)
  last : ∀ range, ranges.getLast? = some range → range.stop = s.obus.length
  covered : ∀ index obu, s.obus[index]? = some obu → obu.isTemporal = true →
    ∃ range ∈ ranges, range.start ≤ index ∧ index < range.stop
  units : ∀ range ∈ ranges, IsUnit (s.obus.any (·.isTemporalDelimiter)) (s.within range)

theorem piecesPartition {lead : List SequenceObu} {pieces : List (List SequenceObu)} {first : SequenceObu}
    {rest : List SequenceObu} (still : ∀ obu ∈ lead, obu.isTemporal = false)
    (begins : pieces.flatten = first :: rest) (temporal : first.isTemporal = true)
    (whole : ∀ piece ∈ pieces, IsUnit ((lead ++ pieces.flatten).any (·.isTemporalDelimiter)) piece) :
    PartitionsTemporal ⟨lead ++ pieces.flatten⟩ (rangesOf lead.length pieces) where
  filled := rangesFilled fun piece among => (whole piece among).filled
  adjacent := rangesAdjacent _ _
  increasing := rangesIncrease _ _
  first := by
    have none : lead.findIdx? (·.isTemporal) = none := List.findIdx?_eq_none_iff.mpr still
    cases pieces with
    | nil => cases begins
    | cons piece pieces =>
      rw [List.findIdx?_append, none, begins, List.findIdx?_cons, temporal]
      simp [rangesOf]
  last := fun range last => by rw [rangesLast last, List.length_append]
  covered := by
    intro index obu here moving
    obtain ⟨inside, there⟩ := List.getElem?_eq_some_iff.mp here
    refine rangesCover (Nat.le_of_not_lt fun early => ?_) (by rwa [List.length_append] at inside)
    rw [List.getElem_append_left early] at there
    have quiet := still _ (List.getElem_mem early)
    rw [there, moving] at quiet
    cases quiet
  units := by
    intro range among
    have held := List.mem_map_of_mem (f := ParsedSequence.within ⟨lead ++ pieces.flatten⟩) among
    change _ ∈ (rangesOf lead.length pieces).map fun range =>
      ((lead ++ pieces.flatten).drop range.start).take (range.stop - range.start) at held
    rw [rangesWithin] at held
    exact whole _ held

theorem stillPartition {obus : List SequenceObu} (still : ∀ obu ∈ obus, obu.isTemporal = false) :
    PartitionsTemporal ⟨obus⟩ [] where
  filled := fun _ among => nomatch among
  adjacent := .nil
  increasing := .nil
  first := (List.findIdx?_eq_none_iff.mpr still).symm
  last := fun _ last => nomatch last
  covered := by
    intro index obu here moving
    rw [still obu (List.mem_of_getElem? here)] at moving
    cases moving
  units := fun _ among => nomatch among

theorem temporalUnitRangesPartition (s : ParsedSequence) : PartitionsTemporal s s.temporalUnitRanges := by
  obtain ⟨obus⟩ := s
  have start : Grouped (obus.any (·.isTemporalDelimiter)) [] .new := .waiting fun _ among => nomatch among
  have grouped := groupedScan start obus
  unfold ParsedSequence.temporalUnitRanges
  change Grouped _ obus (scan (obus.any (·.isTemporalDelimiter)) 0 .new obus) at grouped
  revert grouped
  generalize uses : obus.any (·.isTemporalDelimiter) = usesDelimiters
  generalize scan usesDelimiters 0 .new obus = g
  intro grouped
  cases grouped with
  | waiting still => exact stillPartition still
  | @opened lead units current first rest still whole unit begins temporal =>
    have flat : (units ++ [current]).flatten = units.flatten ++ current := by simp
    have all : ∀ piece ∈ units ++ [current], IsUnit usesDelimiters piece :=
      List.forall_mem_append.mpr ⟨whole, List.forall_mem_singleton.mpr unit⟩
    rw [List.append_assoc, ← flat] at uses ⊢
    rw [← uses] at all
    have cut := piecesPartition still (flat.trans begins) temporal all
    rw [rangesSnoc] at cut
    simpa [close, Nat.add_assoc] using cut

end Iamf.Wire
