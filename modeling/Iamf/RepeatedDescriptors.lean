import Iamf.SequenceValidate

/-! A descriptor sent again changes nothing behind it: a definition keeps the meaning it had first. -/
namespace Iamf.Wire
open Bits BitString TapeCodec ReadTape

def ParamDefinitionRegistry.Agrees (r r' : ParamDefinitionRegistry) : Prop := ∀ id, r.get id = r'.get id

theorem agreesAppend {r r' s s' : ParamDefinitionRegistry} (agrees : r.Agrees r') {added : List RegisteredParamDefinition}
    (left : s.entries = r.entries ++ added) (right : s'.entries = r'.entries ++ added) : s.Agrees s' := by
  intro id
  have same := agrees id
  unfold ParamDefinitionRegistry.get at same ⊢
  rw [left, right, List.find?_append, List.find?_append, same]

theorem agreesKnown {r s : ParamDefinitionRegistry} {added : List RegisteredParamDefinition} (known : added ⊆ r.entries)
    (grown : s.entries = r.entries ++ added) : r.Agrees s := by
  intro id
  unfold ParamDefinitionRegistry.get
  rw [grown, List.find?_append]
  cases found : r.entries.find? (fun entry => entry.definition.parameterId == id) with
  | some entry => rfl
  | none =>
    have absent := List.find?_eq_none.mp found
    exact (List.find?_eq_none.mpr fun entry mem => absent entry (known mem)).symm

theorem readParameterBlockAgrees {r r' : ParamDefinitionRegistry} (agrees : r.Agrees r') :
    readParameterBlock r = readParameterBlock r' := by
  unfold readParameterBlock
  simp only [agrees _]

theorem decodesObserve {r next : ParamDefinitionRegistry} {header : ObuHeader} {payload : Bytes} {obu : SequenceObu}
    (decodes : Decodes r header payload obu next) : next = r.observeObu obu := by
  cases decodes <;> rfl

theorem decodesAgrees {r r' next : ParamDefinitionRegistry} {header : ObuHeader} {payload : Bytes} {obu : SequenceObu}
    (agrees : r.Agrees r') (decodes : Decodes r header payload obu next) :
    Decodes r' header payload obu (r'.observeObu obu) := by
  cases decodes with
  | iaSequenceHeader type parsed => exact .iaSequenceHeader type parsed
  | codecConfig type parsed => exact .codecConfig type parsed
  | audioElement type parsed => exact .audioElement type parsed
  | mixPresentation type parsed => exact .mixPresentation type parsed
  | parameterBlock type inspected governed parsed =>
    rw [agrees] at governed
    rw [readParameterBlockAgrees agrees] at parsed
    exact .parameterBlock type inspected governed parsed
  | ungovernedParameterBlock type inspected ungoverned =>
    rw [agrees] at ungoverned
    exact .ungovernedParameterBlock type inspected ungoverned
  | temporalDelimiter type => exact .temporalDelimiter type
  | audioFrame type parsed => exact .audioFrame type parsed
  | unknown type => exact .unknown type

theorem sourceAgrees {r r' last : ParamDefinitionRegistry} {bits : List Bool} {obus : List SequenceObu}
    (agrees : r.Agrees r') (source : SequenceSource r bits obus last) :
    ∃ last', SequenceSource r' bits obus last' := by
  induction source generalizing r' with
  | nil => exact ⟨r', .nil⟩
  | @cons r next last frame header payload obu bits obus frameSource decodes _ ih =>
    obtain ⟨added, grown⟩ := observeAppends obu
    have behind : next.Agrees (r'.observeObu obu) := by
      rw [decodesObserve decodes]
      exact agreesAppend agrees (grown r) (grown r')
    obtain ⟨last', tail⟩ := ih behind
    exact ⟨last', .cons frameSource (decodesAgrees agrees decodes) tail⟩

theorem sourceAppend {r mid last : ParamDefinitionRegistry} {bits bits' : List Bool} {xs ys : List SequenceObu}
    (first : SequenceSource r bits xs mid) (second : SequenceSource mid bits' ys last) :
    SequenceSource r (bits ++ bits') (xs ++ ys) last := by
  induction first with
  | nil => exact second
  | cons frameSource decodes _ ih =>
    rw [List.append_assoc]
    exact .cons frameSource decodes (ih second)

theorem sourceLast {r last : ParamDefinitionRegistry} {bits : List Bool} {obus : List SequenceObu}
    (source : SequenceSource r bits obus last) : last = obus.foldl ParamDefinitionRegistry.observeObu r := by
  induction source with
  | nil => rfl
  | cons _ decodes _ ih => rw [ih, decodesObserve decodes, List.foldl_cons]

theorem sourceGrows {r last : ParamDefinitionRegistry} {bits : List Bool} {obus : List SequenceObu}
    (source : SequenceSource r bits obus last) : r.entries ⊆ last.entries := by
  induction source with
  | nil => exact List.Subset.refl _
  | @cons r next last frame header payload obu bits obus _ decodes _ ih =>
    obtain ⟨added, grown⟩ := observeAppends obu
    rw [decodesObserve decodes, grown] at ih
    exact fun entry mem => ih (List.mem_append_left added mem)

theorem yieldsWhole {s s1 s2 : SequenceReader} {xs zs : List SequenceObu} (part : Yields s xs s1)
    (whole : Yields s zs s2) (ended : s2.next.1 = none) : ∃ ys, zs = xs ++ ys ∧ Yields s1 ys s2 := by
  induction part generalizing zs with
  | refl => exact ⟨zs, rfl, whole⟩
  | step next _ ih =>
    cases whole with
    | refl =>
      rw [next] at ended
      cases ended
    | step next' whole =>
      cases next.symm.trans next'
      obtain ⟨ys, same, tail⟩ := ih whole
      exact ⟨ys, by rw [same]; rfl, tail⟩

theorem sourceEnds {input : Bytes} {obus : List SequenceObu} (ok : parseSequence input = .ok ⟨obus⟩) :
    ∃ s, Yields (.new input) obus s ∧ s.Ready ∧ rest s.reader = [] := by
  obtain ⟨last, source⟩ := parseSequenceOk.mp ok
  have yields := sourceYields source (c := BitCursor.new input) rfl (restNew input)
  refine ⟨_, yields, (yieldsSource yields (newReady input)).1, ?_⟩
  have behind := restAdvance (bytesBits input).length (BitCursor.new input) (Nat.le_refl _)
  exact behind.trans List.drop_length

theorem parseSplit {front back : Bytes} {xs zs : List SequenceObu} (first : parseSequence front = .ok ⟨xs⟩)
    (whole : parseSequence (front ++ back) = .ok ⟨zs⟩) : ∃ mid last ys, zs = xs ++ ys ∧
      SequenceSource .new (bytesBits front) xs mid ∧ SequenceSource mid (bytesBits back) ys last := by
  obtain ⟨mid, source⟩ := parseSequenceOk.mp first
  have part := sourceYields source (c := BitCursor.new (front ++ back)) rfl
    (show rest (BitCursor.new (front ++ back)) = bytesBits front ++ bytesBits back by rw [← bytesBitsAppend]; rfl)
  obtain ⟨s, yields, ready, done⟩ := sourceEnds whole
  obtain ⟨ys, same, tail⟩ := yieldsWhole part yields ((nextNone ready).mpr done)
  obtain ⟨_, bits, split, _, others⟩ := yieldsSource tail (yieldsSource part (newReady _)).1
  have behind := restAdvance (bytesBits front).length (BitCursor.new (front ++ back)) (by
    change _ ≤ (bytesBits (front ++ back)).length
    rw [bytesBitsAppend, List.length_append]
    omega)
  have start : rest (BitCursor.new (front ++ back)) = bytesBits front ++ bytesBits back := (bytesBitsAppend _ _).symm ▸ rfl
  rw [start, List.drop_left] at behind
  rw [done, List.append_nil] at split
  have bitsIs : bits = bytesBits back := split.symm.trans behind
  exact ⟨mid, _, ys, same, source, bitsIs ▸ others⟩

/-- The header and payload of bytes that are one OBU, with nothing behind it. -/
def wholeObu (bytes : Bytes) : Option (ObuHeader × Bytes) :=
  match readObuSpan (BitCursor.new bytes) with
  | .ok parts behind => if behind.bytesRemaining = 0 then some parts else none
  | .error _ _ => none

theorem wholeObuSource {bytes : Bytes} {header : ObuHeader} {payload : Bytes}
    (whole : wholeObu bytes = some (header, payload)) : FrameSource (bytesBits bytes) header payload := by
  unfold wholeObu at whole
  split at whole
  · rename_i parts c span
    split at whole
    · rename_i done
      cases Option.some.inj whole
      obtain ⟨frame, tail, split, moved, source⟩ := readObuSpanSource rfl span
      have start : rest (BitCursor.new bytes) = bytesBits bytes := rfl
      have inside : frame.length ≤ (rest (BitCursor.new bytes)).length := by rw [split, List.length_append]; omega
      have behind := restAdvance _ _ inside
      rw [← moved, split, List.drop_left] at behind
      obtain ⟨k, _, size⟩ := frameOctets source
      have aligned : c.bitOff = 0 := by
        rw [moved, size]
        exact (advanceAligned rfl (by rw [← size]; exact inside)).2
      have none := remainingOfRest aligned
      rw [done, behind] at none
      have empty : tail = [] := List.length_eq_zero_iff.mp none.symm
      rw [start, empty, List.append_nil] at split
      rw [split]
      exact source
    · cases whole
  · cases whole

def descriptorTypes : List ObuType := [.iaSequenceHeader, .codecConfig, .audioElement, .mixPresentation]

theorem descriptorAgain {r next : ParamDefinitionRegistry} {header header' : ObuHeader} {payload : Bytes}
    {obu : SequenceObu} (descriptor : header.obuType ∈ descriptorTypes) (type : header'.obuType = header.obuType)
    (decodes : Decodes r header payload obu next) : ∃ obu', ∀ r' : ParamDefinitionRegistry,
      r'.observeObu obu' = r'.observeObu obu ∧ Decodes r' header' payload obu' (r'.observeObu obu') := by
  cases decodes with
  | @iaSequenceHeader v trailing kind parsed =>
    exact ⟨.iaSequenceHeader ⟨header', v, trailing⟩, fun _ => ⟨rfl, .iaSequenceHeader (type.trans kind) parsed⟩⟩
  | @codecConfig v trailing kind parsed =>
    exact ⟨.codecConfig ⟨header', v, trailing⟩, fun _ => ⟨rfl, .codecConfig (type.trans kind) parsed⟩⟩
  | @audioElement v trailing kind parsed =>
    exact ⟨.audioElement ⟨header', v, trailing⟩, fun _ => ⟨rfl, .audioElement (type.trans kind) parsed⟩⟩
  | @mixPresentation v trailing kind parsed =>
    exact ⟨.mixPresentation ⟨header', v, trailing⟩, fun _ => ⟨rfl, .mixPresentation (type.trans kind) parsed⟩⟩
  | parameterBlock kind => simp [descriptorTypes, kind] at descriptor
  | ungovernedParameterBlock kind => simp [descriptorTypes, kind] at descriptor
  | temporalDelimiter kind => simp [descriptorTypes, kind] at descriptor
  | audioFrame kind => rcases kind with kind | ⟨id, kind⟩ <;> simp [descriptorTypes, kind] at descriptor
  | unknown kind => simp [descriptorTypes, kind] at descriptor

theorem sourceHead {r last : ParamDefinitionRegistry} {d back : Bytes} {obus : List SequenceObu} {header : ObuHeader}
    {payload : Bytes} (whole : wholeObu d = some (header, payload))
    (source : SequenceSource r (bytesBits (d ++ back)) obus last) :
    ∃ obu next bits obus', Decodes r header payload obu next ∧ SequenceSource next bits obus' last := by
  obtain ⟨k, positive, size⟩ := frameOctets (wholeObuSource whole)
  generalize stream : bytesBits (d ++ back) = bits at source
  cases source with
  | nil =>
    have none := congrArg List.length stream
    rw [bytesBitsAppend, List.length_append, size, List.length_nil] at none
    omega
  | @cons _ next _ frame header' payload' obu bits obus frameSource decodes tail =>
    have here : rest (BitCursor.new (d ++ back)) = bytesBits d ++ bytesBits back := (bytesBitsAppend d back).symm ▸ rfl
    have read := readsObuSpan (wholeObuSource whole) (BitCursor.new (d ++ back)) _ (phaseIsBitOff _) here
    have read' := readsObuSpan frameSource (BitCursor.new (d ++ back)) bits (phaseIsBitOff _) stream
    obtain ⟨rfl, rfl⟩ := Prod.mk.inj (EStateM.Result.ok.inj (read.symm.trans read')).1
    exact ⟨obu, next, bits, obus, decodes, tail⟩

theorem repeatedDescriptorTransparent {a b d d' front back : Bytes} {sa sb sf : List SequenceObu}
    {header header' : ObuHeader} {payload : Bytes} (first : parseSequence a = .ok ⟨sa⟩)
    (whole : parseSequence (a ++ b) = .ok ⟨sa ++ sb⟩) (contained : a = front ++ d ++ back)
    (before : parseSequence front = .ok ⟨sf⟩) (original : wholeObu d = some (header, payload))
    (again : wholeObu d' = some (header', payload)) (type : header'.obuType = header.obuType)
    (descriptor : header.obuType ∈ descriptorTypes) :
    ∃ obu, parseSequence d' = .ok ⟨[obu]⟩ ∧ parseSequence (a ++ d' ++ b) = .ok ⟨sa ++ [obu] ++ sb⟩ := by
  obtain ⟨mid, last, ys, same, sourceA, sourceB⟩ := parseSplit first whole
  cases List.append_cancel_left same
  have whole' := first
  rw [contained, List.append_assoc] at whole'
  obtain ⟨rf, ra, zs, rfl, sourceF, sourceD⟩ := parseSplit before whole'
  obtain ⟨obu, next, bits, obus, decodes, tail⟩ := sourceHead original sourceD
  obtain ⟨obu', redecodes⟩ := descriptorAgain descriptor type decodes
  obtain ⟨added, grown⟩ := observeAppends obu
  -- what the descriptor adds is among what is known behind `a`
  have known : added ⊆ mid.entries := by
    have later := sourceGrows tail
    rw [decodesObserve decodes, grown, sourceLast (sourceAppend sourceF sourceD), ← sourceLast sourceA] at later
    exact fun entry mem => later (List.mem_append_right _ mem)
  have agrees : mid.Agrees (mid.observeObu obu') :=
    agreesKnown known (by rw [(redecodes mid).1, grown])
  obtain ⟨last', sourceB'⟩ := sourceAgrees agrees sourceB
  have inserted (r : ParamDefinitionRegistry) : SequenceSource r (bytesBits d') [obu'] (r.observeObu obu') := by
    rw [← List.append_nil (bytesBits d')]
    exact .cons (wholeObuSource again) (redecodes r).2 .nil
  refine ⟨obu', parseSequenceOk.mpr ⟨_, inserted .new⟩, parseSequenceOk.mpr ⟨last', ?_⟩⟩
  rw [bytesBitsAppend, bytesBitsAppend]
  exact sourceAppend (sourceAppend sourceA (inserted mid)) sourceB'

def demixedElement : AudioElement :=
  ⟨5, 0, .channelBased ⟨0, [.new .stereo 1 1]⟩, 0, [0], [.demixing (.mode1 9 48000) 1 0 0 0], []⟩

def demixedBytes : Bytes := [18, 5, 0, 0, 1, 0, 1, 1, 9, 128, 247, 2, 128, 32, 0, 32, 16, 1, 1]

theorem repeatedDescriptorTransparentElement : ∃ obu, parseSequence (12 :: demixedBytes) = .ok ⟨[obu]⟩ ∧
    parseSequence ([0xf8, 6, 0x69, 0x61, 0x6d, 0x66, 0, 1] ++ 8 :: demixedBytes ++ 12 :: demixedBytes ++
        [24, 4, 9, 8, 8, 64]) =
      .ok ⟨[.iaSequenceHeader (.new (.new .iaSequenceHeader) (.new 0 1)), .ofAudioElement demixedElement] ++ [obu] ++
        [.parameterBlock (.new (.new .parameterBlock) ⟨9, some ⟨8, 8⟩, [⟨none, .demixing ⟨2, 0⟩⟩]⟩)]⟩ := by
  have before : parseSequence [0xf8, 6, 0x69, 0x61, 0x6d, 0x66, 0, 1] =
      .ok ⟨[.iaSequenceHeader (.new (.new .iaSequenceHeader) (.new 0 1))]⟩ := by decide +kernel
  have first : parseSequence ([0xf8, 6, 0x69, 0x61, 0x6d, 0x66, 0, 1] ++ 8 :: demixedBytes) =
      .ok ⟨[.iaSequenceHeader (.new (.new .iaSequenceHeader) (.new 0 1)), .ofAudioElement demixedElement]⟩ := by
    decide +kernel
  have whole : parseSequence ([0xf8, 6, 0x69, 0x61, 0x6d, 0x66, 0, 1] ++ 8 :: demixedBytes ++ [24, 4, 9, 8, 8, 64]) =
      .ok ⟨[.iaSequenceHeader (.new (.new .iaSequenceHeader) (.new 0 1)), .ofAudioElement demixedElement] ++
        [.parameterBlock (.new (.new .parameterBlock) ⟨9, some ⟨8, 8⟩, [⟨none, .demixing ⟨2, 0⟩⟩]⟩)]⟩ := by
    decide +kernel
  have original : wholeObu (8 :: demixedBytes) = some (.new .audioElement, demixedBytes.tail) := by decide +kernel
  have again : wholeObu (12 :: demixedBytes) = some (⟨.audioElement, true, .reserved, none⟩, demixedBytes.tail) := by
    decide +kernel
  exact repeatedDescriptorTransparent first whole (List.append_nil _).symm before original again rfl (by decide)

end Iamf.Wire
