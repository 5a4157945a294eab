import Iamf.BoundaryGrammar
import Iamf.Ranges
import Iamf.SendableObus
import Iamf.TemporalUnitRanges

/-! A stream from which OBUs are taken out, or into which others are put. What is left means what it
meant, as long as no definition is taken away and none is added. -/
namespace Iamf.Wire
open Bits BitString TapeCodec ReadTape

def obuSlices (bytes : Bytes) : Except Error (List Bytes) :=
  (findObuBoundaries bytes).map fun boundaries =>
    (boundaries.zip boundaries.tail).map fun pair => (bytes.drop pair.1).take (pair.2 - pair.1)

def keptOf {T : Type} (keep : Nat → Bool) : List T → List T
  | [] => []
  | x :: xs => if keep 0 then x :: keptOf (fun i => keep (i + 1)) xs else keptOf (fun i => keep (i + 1)) xs

theorem keptMap {S T : Type} (f : S → T) (keep : Nat → Bool) (xs : List S) :
    keptOf keep (xs.map f) = (keptOf keep xs).map f := by
  induction xs generalizing keep with
  | nil => rfl
  | cons x xs ih =>
    simp only [List.map_cons, keptOf, ih]
    split <;> rfl

def keptBytes (keep : Nat → Bool) (bytes : Bytes) : Except Error Bytes :=
  (obuSlices bytes).map fun slices => (keptOf keep slices).flatten

def SequenceObu.standsAlone : SequenceObu → Bool
  | .parameterBlock _ | .ungovernedParameterBlock _ => false
  | _ => true

theorem decodesAlone {r next : ParamDefinitionRegistry} {header : ObuHeader} {payload : Bytes} {obu : SequenceObu}
    (alone : obu.standsAlone = true) (decodes : Decodes r header payload obu next) (r' : ParamDefinitionRegistry) :
    Decodes r' header payload obu (r'.observeObu obu) := by
  cases decodes with
  | iaSequenceHeader type parsed => exact .iaSequenceHeader type parsed
  | codecConfig type parsed => exact .codecConfig type parsed
  | audioElement type parsed => exact .audioElement type parsed
  | mixPresentation type parsed => exact .mixPresentation type parsed
  | parameterBlock => cases alone
  | ungovernedParameterBlock => cases alone
  | temporalDelimiter type => exact .temporalDelimiter type
  | audioFrame type parsed => exact .audioFrame type parsed
  | unknown type => exact .unknown type

theorem wholeObuOf {bytes : Bytes} {header : ObuHeader} {payload : Bytes}
    (source : FrameSource (bytesBits bytes) header payload) : wholeObu bytes = some (header, payload) := by
  have start : rest (BitCursor.new bytes) = bytesBits bytes ++ [] := (List.append_nil _).symm
  have span := readsObuSpan source (BitCursor.new bytes) [] (phaseIsBitOff _) start
  have inside : 8 * bytes.length ≤ (rest (BitCursor.new bytes)).length := by rw [start]; simp
  have aligned := (advanceAligned (c := BitCursor.new bytes) rfl inside).2
  have behind : rest (advance (8 * bytes.length) (BitCursor.new bytes)) = [] := by
    rw [restAdvance _ _ inside, start, List.append_nil, ← bytesBitsLength, List.drop_length]
  have none := remainingOfRest aligned
  rw [behind, List.length_nil] at none
  unfold wholeObu
  rw [span]
  simp only [bytesBitsLength]
  exact if_pos (by omega)

inductive Slices : ParamDefinitionRegistry → List (Bytes × SequenceObu) → ParamDefinitionRegistry → Prop where
  | nil {registry} : Slices registry [] registry
  | cons {registry next last slice header payload obu entries} (whole : wholeObu slice = some (header, payload))
      (decodes : Decodes registry header payload obu next) (tail : Slices next entries last) :
      Slices registry ((slice, obu) :: entries) last

theorem slicesSource {r last : ParamDefinitionRegistry} {entries : List (Bytes × SequenceObu)}
    (slices : Slices r entries last) :
    SequenceSource r (bytesBits (entries.flatMap (·.1))) (entries.map (·.2)) last := by
  induction slices with
  | nil => exact .nil
  | cons whole decodes _ ih =>
    rw [List.flatMap_cons, bytesBitsAppend]
    exact .cons (wholeObuSource whole) decodes ih

theorem sourceSlices {r last : ParamDefinitionRegistry} {bytes : Bytes} {obus : List SequenceObu}
    (source : SequenceSource r (bytesBits bytes) obus last) : ∃ entries : List (Bytes × SequenceObu),
      entries.flatMap (·.1) = bytes ∧ entries.map (·.2) = obus ∧ Slices r entries last := by
  generalize stream : bytesBits bytes = bits at source
  induction source generalizing bytes with
  | nil =>
    cases bytes with
    | nil => exact ⟨[], rfl, rfl, .nil⟩
    | cons byte bytes =>
      have none := congrArg List.length stream
      rw [bytesBitsLength] at none
      cases none
  | @cons r next last frame header payload obu bits obus frameSource decodes _ ih =>
    obtain ⟨k, _, size⟩ := frameOctets frameSource
    have total := congrArg List.length stream
    rw [bytesBitsLength, List.length_append, size] at total
    have split : bytesBits (bytes.take k) ++ bytesBits (bytes.drop k) = frame ++ bits := by
      rw [← bytesBitsAppend, List.take_append_drop, stream]
    have length : (bytesBits (bytes.take k)).length = frame.length := by
      rw [bytesBitsLength, List.length_take, size]
      omega
    obtain ⟨front, back⟩ := List.append_inj split length
    obtain ⟨entries, flat, others, slices⟩ := ih back
    rw [← front] at frameSource
    refine ⟨(bytes.take k, obu) :: entries, ?_, ?_, .cons (wholeObuOf frameSource) decodes slices⟩
    · rw [List.flatMap_cons, flat, List.take_append_drop]
    · rw [List.map_cons, others]

theorem wholeApart {a b x y : Bytes} (whole : (wholeObu a).isSome) (whole' : (wholeObu b).isSome)
    (same : a ++ x = b ++ y) : a = b ∧ x = y := by
  obtain ⟨parts, first⟩ := Option.isSome_iff_exists.mp whole
  obtain ⟨parts', first'⟩ := Option.isSome_iff_exists.mp whole'
  have start : rest (BitCursor.new (a ++ x)) = bytesBits a ++ bytesBits x := (bytesBitsAppend a x).symm ▸ rfl
  have start' : rest (BitCursor.new (a ++ x)) = bytesBits b ++ bytesBits y := by
    rw [same]
    exact (bytesBitsAppend b y).symm ▸ rfl
  have read := readsObuSpan (wholeObuSource first) (BitCursor.new (a ++ x)) _ (phaseIsBitOff _) start
  have read' := readsObuSpan (wholeObuSource first') (BitCursor.new (a ++ x)) _ (phaseIsBitOff _) start'
  have stop := (EStateM.Result.ok.inj (read.symm.trans read')).2
  rw [bytesBitsLength, bytesBitsLength] at stop
  have behind := (advanceAligned (c := BitCursor.new (a ++ x)) (k := a.length) rfl (by rw [start]; simp)).1
  have behind' := (advanceAligned (c := BitCursor.new (a ++ x)) (k := b.length) rfl (by rw [start']; simp)).1
  rw [stop, behind'] at behind
  exact List.append_inj same (by omega)

theorem wholeSome {slice : Bytes} (whole : (wholeObu slice).isSome) : slice ≠ [] := by
  rintro rfl
  cases whole

theorem wholesUnique {xs ys : List Bytes} (whole : ∀ x ∈ xs, (wholeObu x).isSome) (whole' : ∀ y ∈ ys, (wholeObu y).isSome)
    (flat : xs.flatten = ys.flatten) : xs = ys := by
  induction xs generalizing ys with
  | nil =>
    cases ys with
    | nil => rfl
    | cons y ys => exact absurd (List.append_eq_nil_iff.mp flat.symm).1 (wholeSome (whole' y List.mem_cons_self))
  | cons x xs ih =>
    rw [List.forall_mem_cons] at whole
    cases ys with
    | nil => exact absurd (List.append_eq_nil_iff.mp flat).1 (wholeSome whole.1)
    | cons y ys =>
      rw [List.forall_mem_cons] at whole'
      obtain ⟨rfl, others⟩ := wholeApart whole.1 whole'.1 flat
      rw [ih whole.2 whole'.2 others]

theorem slicesWhole {r last : ParamDefinitionRegistry} {entries : List (Bytes × SequenceObu)}
    (slices : Slices r entries last) : ∀ entry ∈ entries, (wholeObu entry.1).isSome := by
  induction slices with
  | nil => exact fun entry among => absurd among List.not_mem_nil
  | cons whole _ _ ih => exact List.forall_mem_cons.mpr ⟨by rw [whole]; rfl, ih⟩

theorem slicesCut {r last : ParamDefinitionRegistry} {slices : List Bytes} {obus : List SequenceObu}
    (whole : ∀ slice ∈ slices, (wholeObu slice).isSome) (source : SequenceSource r (bytesBits slices.flatten) obus last) :
    ∃ entries, entries.map (·.1) = slices ∧ entries.map (·.2) = obus ∧ Slices r entries last := by
  obtain ⟨entries, flat, same, found⟩ := sourceSlices source
  rw [List.flatMap_def] at flat
  exact ⟨entries, wholesUnique (List.forall_mem_map.mpr (slicesWhole found)) whole flat, same, found⟩

theorem wholeFrame {slice : Bytes} (whole : (wholeObu slice).isSome) : IsFrame slice := by
  obtain ⟨⟨header, payload⟩, parts⟩ := Option.isSome_iff_exists.mp whole
  obtain ⟨size, framed⟩ := framedOfSource (wholeObuSource parts)
  have alone : bytesBits slice = bytesBits slice ++ [] := (List.append_nil _).symm
  obtain ⟨front, behind, split, isFrame, length⟩ := framedFrame framed alone
  have total := congrArg List.length split
  have octets := (framedLength framed).1
  rw [bytesBitsLength] at octets
  rw [List.length_append] at total
  have none : behind = [] := List.length_eq_zero_iff.mp (by omega)
  rwa [split, none, List.append_nil]

theorem startsRanges (position : Nat) (slices : List Bytes) :
    ((frameStarts position slices).zip (frameStarts position slices).tail).map (fun pair => Range.mk pair.1 pair.2) =
      rangesOf position slices := by
  induction slices generalizing position with
  | nil => rfl
  | cons slice slices ih =>
    rw [rangesOf, ← ih]
    cases slices with
    | nil => rfl
    | cons next slices => rfl

theorem obuSlicesOf {slices : List Bytes} (whole : ∀ slice ∈ slices, (wholeObu slice).isSome) :
    obuSlices slices.flatten = .ok slices := by
  have found : findObuBoundaries slices.flatten = .ok (frameStarts 0 slices) :=
    boundariesFrames.mpr ⟨slices, fun slice among => wholeFrame (whole slice among), rfl, rfl⟩
  have cut := rangesWithin [] slices
  unfold obuSlices
  rw [found]
  refine congrArg Except.ok (Eq.trans ?_ cut)
  rw [List.length_nil, ← startsRanges, List.map_map]
  rfl

theorem slicesKept {r last : ParamDefinitionRegistry} {entries : List (Bytes × SequenceObu)}
    (slices : Slices r entries last) {keep : Nat → Bool}
    (silent : ∀ i entry, entries[i]? = some entry → keep i = false → entry.2.Silent) :
    Slices r (keptOf keep entries) last := by
  induction slices generalizing keep with
  | nil => exact .nil
  | @cons r next last slice header payload obu entries whole decodes _ ih =>
    have others := ih fun i entry found => silent (i + 1) entry found
    rw [keptOf]
    cases kept : keep 0 with
    | true => exact .cons whole decodes others
    | false =>
      have same := decodesObserve decodes
      rw [silent 0 _ rfl kept] at same
      subst same
      exact others

theorem keptParses {bytes : Bytes} {s : ParsedSequence} (parsed : parseSequence bytes = .ok s) {keep : Nat → Bool}
    (silent : ∀ i obu, s.obus[i]? = some obu → keep i = false → obu.Silent) :
    ∃ kept, keptBytes keep bytes = .ok kept ∧ parseSequence kept = .ok ⟨keptOf keep s.obus⟩ := by
  obtain ⟨last, source⟩ := parseSequenceOk.mp parsed
  obtain ⟨entries, flat, obus, slices⟩ := sourceSlices source
  have thinned : Slices .new (keptOf keep entries) last := by
    refine slicesKept slices fun i entry found => silent i entry.2 ?_
    rw [← obus, List.getElem?_map, found]
    rfl
  have cut : obuSlices bytes = .ok (entries.map (·.1)) := by
    rw [← flat, List.flatMap_def]
    exact obuSlicesOf (List.forall_mem_map.mpr (slicesWhole slices))
  refine ⟨(keptOf keep (entries.map (·.1))).flatten, ?_, parseSequenceOk.mpr ⟨last, ?_⟩⟩
  · unfold keptBytes
    rw [cut]
    rfl
  · rw [← obus, keptMap, keptMap, ← List.flatMap_def]
    exact slicesSource thinned

def headerEntry : Bytes × SequenceObu :=
  ([0xf8, 6, 0x69, 0x61, 0x6d, 0x66, 0, 1], .iaSequenceHeader (.new (.new .iaSequenceHeader) (.new 0 1)))

def delimiterEntry : Bytes × SequenceObu := ([0x20, 0], .temporalDelimiter (.new (.new .temporalDelimiter) ⟨⟩))

theorem keptParsesHeader :
    ∃ kept, keptBytes (· != 1) (headerEntry.1 ++ delimiterEntry.1 ++ delimiterEntry.1) = .ok kept ∧
      parseSequence kept = .ok ⟨[headerEntry.2, delimiterEntry.2]⟩ := by
  have parsed : parseSequence (headerEntry.1 ++ delimiterEntry.1 ++ delimiterEntry.1) =
      .ok ⟨[headerEntry.2, delimiterEntry.2, delimiterEntry.2]⟩ := by
    decide +kernel
  refine keptParses parsed fun i obu found dropped => ?_
  rw [bne_eq_false_iff_eq] at dropped
  subst dropped
  cases Option.some.inj found
  exact fun _ => rfl

/-- OBUs between those of `base` that parse alone, and that neither look at definitions nor add any. -/
inductive Inserted : List (Bytes × SequenceObu) → List (Bytes × SequenceObu) → Prop where
  | nil : Inserted [] []
  | keep {entry entries base} (tail : Inserted entries base) : Inserted (entry :: entries) (entry :: base)
  | insert {slice obu entries base} (parsed : parseSequence slice = .ok ⟨[obu]⟩) (alone : obu.standsAlone = true)
      (silent : obu.Silent) (tail : Inserted entries base) : Inserted ((slice, obu) :: entries) base

theorem sliceAlone {slice : Bytes} {obu : SequenceObu} (parsed : parseSequence slice = .ok ⟨[obu]⟩) :
    ∃ header payload next, wholeObu slice = some (header, payload) ∧ Decodes .new header payload obu next := by
  obtain ⟨last, source⟩ := parseSequenceOk.mp parsed
  obtain ⟨entries, flat, obus, slices⟩ := sourceSlices source
  obtain ⟨entry, rfl, rfl⟩ := List.map_eq_singleton_iff.mp obus
  rw [List.flatMap_singleton] at flat
  subst flat
  cases slices with
  | cons whole decodes _ => exact ⟨_, _, _, whole, decodes⟩

theorem slicesInserted {r last : ParamDefinitionRegistry} {entries base : List (Bytes × SequenceObu)}
    (inserted : Inserted entries base) : Slices r entries last ↔ Slices r base last := by
  induction inserted generalizing r with
  | nil => exact Iff.rfl
  | keep _ ih =>
    constructor
    · intro slices
      cases slices with
      | cons whole decodes tail => exact .cons whole decodes (ih.mp tail)
    · intro slices
      cases slices with
      | cons whole decodes tail => exact .cons whole decodes (ih.mpr tail)
  | insert parsed alone silent _ ih =>
    constructor
    · intro slices
      cases slices with
      | cons _ decodes tail =>
        have same := decodesObserve decodes
        rw [silent] at same
        subst same
        exact ih.mp tail
    · intro slices
      obtain ⟨header, payload, _, whole, decodes⟩ := sliceAlone parsed
      have again := decodesAlone alone decodes r
      rw [silent] at again
      exact .cons whole again (ih.mpr slices)

theorem insertedWhole {entries base : List (Bytes × SequenceObu)} (inserted : Inserted entries base)
    (whole : ∀ entry ∈ base, (wholeObu entry.1).isSome) : ∀ entry ∈ entries, (wholeObu entry.1).isSome := by
  induction inserted with
  | nil => exact whole
  | keep _ ih =>
    rw [List.forall_mem_cons] at whole ⊢
    exact ⟨whole.1, ih whole.2⟩
  | insert parsed _ _ _ ih =>
    obtain ⟨header, payload, _, first, _⟩ := sliceAlone parsed
    exact List.forall_mem_cons.mpr ⟨by rw [first]; rfl, ih whole⟩

theorem parsedSlices {entries : List (Bytes × SequenceObu)} (whole : ∀ entry ∈ entries, (wholeObu entry.1).isSome) :
    parseSequence (entries.flatMap (·.1)) = .ok ⟨entries.map (·.2)⟩ ↔ ∃ last, Slices .new entries last := by
  rw [parseSequenceOk]
  refine exists_congr fun last => ⟨fun source => ?_, slicesSource⟩
  rw [List.flatMap_def] at source
  obtain ⟨others, slices, obus, found⟩ := slicesCut (List.forall_mem_map.mpr whole) source
  have same : others = entries := (List.zip_of_prod slices obus).trans (List.zip_of_prod rfl rfl).symm
  exact same ▸ found

theorem readSlices {slices : List Bytes} (whole : ∀ slice ∈ slices, (wholeObu slice).isSome) :
    (∃ s, parseSequence slices.flatten = .ok s) ↔
      ∃ entries last, entries.map (·.1) = slices ∧ Slices .new entries last := by
  constructor
  · rintro ⟨s, parsed⟩
    obtain ⟨last, source⟩ := parseSequenceOk.mp parsed
    obtain ⟨entries, same, _, found⟩ := slicesCut whole source
    exact ⟨entries, last, same, found⟩
  · rintro ⟨entries, last, rfl, found⟩
    have source := slicesSource found
    rw [List.flatMap_def] at source
    exact ⟨_, parseSequenceOk.mpr ⟨last, source⟩⟩

theorem decodesUnique {slice payload : Bytes} {header : ObuHeader} (whole : wholeObu slice = some (header, payload))
    {r next next' : ParamDefinitionRegistry} {obu obu' : SequenceObu} (left : Decodes r header payload obu next)
    (right : Decodes r header payload obu' next') : obu' = obu ∧ next' = next := by
  have start : rest (BitCursor.new slice) = bytesBits slice ++ [] := (List.append_nil _).symm
  have span := readsObuSpan (wholeObuSource whole) (BitCursor.new slice) [] (phaseIsBitOff _) start
  have first := nextObuOk.mpr ⟨header, payload, span, left⟩
  have second := nextObuOk.mpr ⟨header, payload, span, right⟩
  exact Prod.mk.inj (EStateM.Result.ok.inj (second.symm.trans first)).1

theorem insertedReads {r : ParamDefinitionRegistry} {entries base : List (Bytes × SequenceObu)}
    (inserted : Inserted entries base) :
    (∃ read last, read.map (·.1) = entries.map (·.1) ∧ Slices r read last) ↔
      ∃ read last, read.map (·.1) = base.map (·.1) ∧ Slices r read last := by
  induction inserted generalizing r with
  | nil => exact Iff.rfl
  | @keep entry entries base _ ih =>
    -- the same OBU first, whatever it is read as
    have first {some' other : List (Bytes × SequenceObu)}
        (behind : ∀ {r}, (∃ read last, read.map (·.1) = some'.map (·.1) ∧ Slices r read last) →
          ∃ read last, read.map (·.1) = other.map (·.1) ∧ Slices r read last) :
        (∃ read last, read.map (·.1) = (entry :: some').map (·.1) ∧ Slices r read last) →
          ∃ read last, read.map (·.1) = (entry :: other).map (·.1) ∧ Slices r read last := by
      rintro ⟨read, last, same, found⟩
      cases found with
      | nil => cases same
      | cons whole decodes tail =>
        obtain ⟨own, others⟩ := List.cons.inj same
        obtain ⟨read', last', same', found'⟩ := behind ⟨_, _, others, tail⟩
        exact ⟨(_, _) :: read', last', congrArg₂ List.cons own same', .cons whole decodes found'⟩
    exact ⟨first ih.mp, first ih.mpr⟩
  | @insert slice obu entries base parsed alone silent _ ih =>
    obtain ⟨header, payload, _, whole, decodes⟩ := sliceAlone parsed
    have again := decodesAlone alone decodes r
    rw [silent] at again
    rw [← ih]
    constructor
    · rintro ⟨read, last, same, found⟩
      cases found with
      | nil => cases same
      | cons whole' decodes' tail =>
        obtain ⟨own, others⟩ := List.cons.inj same
        cases own
        cases whole.symm.trans whole'
        obtain ⟨_, rfl⟩ := decodesUnique whole again decodes'
        exact ⟨_, _, others, tail⟩
    · rintro ⟨read, last, same, found⟩
      exact ⟨(slice, obu) :: read, last, congrArg (slice :: ·) same, .cons whole again found⟩

theorem insertedTransparent {entries base : List (Bytes × SequenceObu)} (inserted : Inserted entries base)
    (whole : ∀ entry ∈ base, (wholeObu entry.1).isSome) :
    (parseSequence (entries.flatMap (·.1)) = .ok ⟨entries.map (·.2)⟩ ↔
      parseSequence (base.flatMap (·.1)) = .ok ⟨base.map (·.2)⟩) ∧
    ((∃ s, parseSequence (entries.flatMap (·.1)) = .ok s) ↔ ∃ s, parseSequence (base.flatMap (·.1)) = .ok s) := by
  have whole' := insertedWhole inserted whole
  constructor
  · rw [parsedSlices whole', parsedSlices whole]
    exact exists_congr fun last => slicesInserted inserted
  · rw [List.flatMap_def, List.flatMap_def, readSlices (List.forall_mem_map.mpr whole'),
      readSlices (List.forall_mem_map.mpr whole)]
    exact insertedReads inserted

theorem insertedTransparentDelimiter :
    (parseSequence ([delimiterEntry, headerEntry].flatMap (·.1)) = .ok ⟨[delimiterEntry, headerEntry].map (·.2)⟩ ↔
      parseSequence ([headerEntry].flatMap (·.1)) = .ok ⟨[headerEntry].map (·.2)⟩) ∧
    ((∃ s, parseSequence ([delimiterEntry, headerEntry].flatMap (·.1)) = .ok s) ↔
      ∃ s, parseSequence ([headerEntry].flatMap (·.1)) = .ok s) := by
  have delimiter : parseSequence [0x20, 0] = .ok ⟨[.temporalDelimiter (.new (.new .temporalDelimiter) ⟨⟩)]⟩ := by
    decide +kernel
  have header : wholeObu headerEntry.1 = some (.new .iaSequenceHeader, [0x69, 0x61, 0x6d, 0x66, 0, 1]) := by
    decide +kernel
  have inserted : Inserted [delimiterEntry, headerEntry] [headerEntry] :=
    .insert delimiter rfl (fun _ => rfl) (.keep .nil)
  refine insertedTransparent inserted fun entry among => ?_
  rw [List.mem_singleton.mp among, header]
  rfl

end Iamf.Wire
