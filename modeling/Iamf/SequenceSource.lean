import Iamf.SequenceReader

/-! The sequences a reader accepts, as a relation between bits and OBUs, and the reader's
calls as steps along it. -/
namespace Iamf.Wire
open Bits BitString TapeCodec ReadTape

theorem parsePayloadRebased {T : Type} {f : Reader T} {base : Nat} {payload : Bytes} {x : T × Bytes} :
    parsePayload (rebased base f) payload = .ok x ↔ parsePayload f payload = .ok x := by
  unfold parsePayload rebased
  cases f (BitCursor.new payload) with
  | ok v r => rfl
  | error e r => simp

theorem parsePayloadAll {payload raw left : Bytes} :
    parsePayload readTrailing payload = .ok (raw, left) ↔ raw = payload ∧ left = [] := by
  constructor
  · intro ok
    obtain ⟨behind, parsed, _, split⟩ := parsePayloadSource ok
    obtain ⟨_, whole, done⟩ := readTrailingSource parsed
    have none := congrArg List.length (done.symm.trans split)
    rw [bytesBitsLength] at none
    exact ⟨(bytesBitsInjective whole).symm, List.length_eq_zero_iff.mp (by simpa using none.symm)⟩
  · rintro ⟨rfl, rfl⟩
    have parsed := readTrailingOk (c := BitCursor.new raw) rfl rfl
    have inside : 8 * raw.length ≤ (rest (BitCursor.new raw)).length := by
      change _ ≤ (bytesBits raw).length
      rw [bytesBitsLength]
    have aligned := (advanceAligned (c := BitCursor.new raw) rfl inside).2
    rw [bytesBitsLength] at parsed
    refine parsePayloadOf parsed aligned ?_
    change rest (advance (8 * raw.length) (BitCursor.new raw)) = []
    rw [restAdvance _ _ inside]
    change (bytesBits raw).drop _ = []
    rw [← bytesBitsLength, List.drop_length]

theorem parsePayloadDelimiter {payload left : Bytes} {v : TemporalDelimiter} :
    parsePayload readTemporalDelimiter payload = .ok (v, left) ↔ left = payload := by
  have whole : parsePayload readTemporalDelimiter payload = .ok (⟨⟩, payload) :=
    parsePayloadOf (show readTemporalDelimiter (BitCursor.new payload) = .ok ⟨⟩ _ from rfl) rfl rfl
  rw [whole]
  constructor
  · intro same; cases same; rfl
  · rintro rfl; rfl

theorem peekOk {T : Type} {f : Reader T} {r r' : BitCursor} {v : T} (ok : peek f r = .ok v r') : r' = r := by
  unfold peek at ok
  split at ok <;> cases ok
  rfl

structure SequenceReader.Ready (s : SequenceReader) : Prop where
  aligned : s.reader.bitOff = 0
  running : s.finished = false

theorem newReady (input : Bytes) : (SequenceReader.new input).Ready := ⟨rfl, rfl⟩

theorem remainingOfRest {c : BitCursor} (aligned : c.bitOff = 0) : 8 * c.bytesRemaining = (rest c).length := by
  change _ = c.rest.length
  have inData := c.inData
  rw [BitCursor.restLength]
  simp only [BitCursor.bytesRemaining, BitCursor.bitsRemaining]
  omega

section

variable [UlebForm]

theorem readObuWithHeaderOk {T : Type} {parse : ObuHeader → Reader T} {r r' : BitCursor} {obu : Obu T} :
    readObuWithHeader parse r = .ok obu r' ↔ ∃ payload, readObuSpan r = .ok (obu.header, payload) r' ∧
      parsePayload (parse obu.header) payload = .ok (obu.payload, obu.trailing) := by
  unfold readObuWithHeader
  constructor
  · intro ok
    obtain ⟨⟨header, payload⟩, c1, span, ok⟩ := bindOk ok
    obtain ⟨⟨value, trailing⟩, c2, thrown, last⟩ := bindOk ok
    obtain ⟨parsed, same⟩ := orThrowOk thrown
    cases last
    subst same
    exact ⟨payload, span, parsed⟩
  · rintro ⟨payload, span, parsed⟩
    rw [bindOf _ span]
    simp only [orThrowOf _ parsed]
    rfl

theorem inspectHeaderOf {r r' : BitCursor} {header : ObuHeader} {payload : Bytes}
    (span : readObuSpan r = .ok (header, payload) r') : ∃ base, peek inspectHeader r = .ok (header, base) r := by
  unfold readObuSpan at span
  rw [bindOf _ (bytePositionOk r)] at span
  obtain ⟨⟨h, size, k⟩, c1, parts, span⟩ := bindOk span
  obtain ⟨_, c2, _, span⟩ := bindOk span
  obtain ⟨bytes, c3, _, last⟩ := bindOk span
  cases last
  refine ⟨c1.bytePos, ?_⟩
  have inspected : inspectHeader r = .ok (header, c1.bytePos) c1 := by
    unfold inspectHeader readObuHeader
    simp only [bind_assoc, pure_bind]
    rw [bindOf _ parts]
    rfl
  simp only [peek, inspected]

/-- What a span decodes to under the definitions seen so far, and what is seen behind it. -/
inductive Decodes (registry : ParamDefinitionRegistry) (header : ObuHeader) (payload : Bytes) :
    SequenceObu → ParamDefinitionRegistry → Prop where
  | iaSequenceHeader {v trailing} (type : header.obuType = .iaSequenceHeader)
      (parsed : parsePayload readIaSequenceHeaderBody payload = .ok (v, trailing)) :
      Decodes registry header payload (.iaSequenceHeader ⟨header, v, trailing⟩) registry
  | codecConfig {v trailing} (type : header.obuType = .codecConfig)
      (parsed : parsePayload readCodecConfigBody payload = .ok (v, trailing)) :
      Decodes registry header payload (.codecConfig ⟨header, v, trailing⟩) registry
  | audioElement {v trailing} (type : header.obuType = .audioElement)
      (parsed : parsePayload readAudioElementBody payload = .ok (v, trailing)) :
      Decodes registry header payload (.audioElement ⟨header, v, trailing⟩) (registry.observeAudioElement v)
  | mixPresentation {v trailing} (type : header.obuType = .mixPresentation)
      (parsed : parsePayload readMixPresentationBody payload = .ok (v, trailing)) :
      Decodes registry header payload (.mixPresentation ⟨header, v, trailing⟩) (registry.observeMixPresentation v)
  | parameterBlock {id rest v trailing} (type : header.obuType = .parameterBlock)
      (inspected : parsePayload (@readUleb128 sourceForms) payload = .ok (id, rest))
      (governed : (registry.get id).isSome = true)
      (parsed : parsePayload (readParameterBlock registry) payload = .ok (v, trailing)) :
      Decodes registry header payload (.parameterBlock ⟨header, v, trailing⟩) registry
  | ungovernedParameterBlock {id rest} (type : header.obuType = .parameterBlock)
      (inspected : parsePayload (@readUleb128 sourceForms) payload = .ok (id, rest))
      (ungoverned : (registry.get id).isSome = false) :
      Decodes registry header payload (.ungovernedParameterBlock ⟨header, payload⟩) registry
  | temporalDelimiter (type : header.obuType = .temporalDelimiter) :
      Decodes registry header payload (.temporalDelimiter ⟨header, ⟨⟩, payload⟩) registry
  | audioFrame {v trailing} (type : header.obuType = .audioFrame ∨ ∃ id, header.obuType = .audioFrameId id)
      (parsed : parsePayload (readAudioFrame header) payload = .ok (v, trailing)) :
      Decodes registry header payload (.audioFrame ⟨header, v, trailing⟩) registry
  | unknown {raw} (type : header.obuType = .reserved raw) :
      Decodes registry header payload (.unknown ⟨header, payload⟩) registry

theorem readObuWithRebased {T : Type} {f : Reader T} {base : Nat} {r r' : BitCursor} {header : ObuHeader} {v : T}
    {trailing : Bytes} : readObuWith (rebased base f) r = .ok ⟨header, v, trailing⟩ r' ↔
      ∃ payload, readObuSpan r = .ok (header, payload) r' ∧ parsePayload f payload = .ok (v, trailing) := by
  unfold readObuWith
  rw [readObuWithHeaderOk]
  simp only [parsePayloadRebased]

theorem nextObuOk {registry registry' : ParamDefinitionRegistry} {r r' : BitCursor} {obu : SequenceObu} :
    nextObu registry r = .ok (obu, registry') r' ↔ ∃ header payload,
      readObuSpan r = .ok (header, payload) r' ∧ Decodes registry header payload obu registry' := by
  constructor
  · intro ok
    unfold nextObu at ok
    obtain ⟨⟨inspected, base⟩, c1, ahead, step⟩ := bindOk ok
    cases peekOk ahead
    have here {header : ObuHeader} {payload : Bytes} {r' : BitCursor}
        (span : readObuSpan r = .ok (header, payload) r') : inspected = header := by
      obtain ⟨base', again⟩ := inspectHeaderOf span
      cases ahead.symm.trans again
      rfl
    cases type : inspected.obuType with
    | iaSequenceHeader =>
      simp only [type] at step
      obtain ⟨⟨header, u, left⟩, c2, read, last⟩ := bindOk step
      obtain ⟨payload, span, parsed⟩ := readObuWithRebased.mp read
      obtain ⟨rfl, v, trailing, body, rfl⟩ := parsePayloadTrailing.mp parsed
      have own := (sequenceHeaderReadsBack True body).1
      cases last
      cases here span
      obtain ⟨code, primary, additional, _⟩ := v
      cases own
      exact ⟨_, _, span, .iaSequenceHeader type body⟩
    | codecConfig =>
      simp only [type] at step
      obtain ⟨⟨header, u, left⟩, c2, read, last⟩ := bindOk step
      obtain ⟨payload, span, parsed⟩ := readObuWithRebased.mp read
      obtain ⟨rfl, v, trailing, body, rfl⟩ := parsePayloadTrailing.mp parsed
      have own := (codecConfigReadsBack _ _ _ body).1.own
      cases last
      cases here span
      obtain ⟨id, codecId, samples, roll, decoder, _⟩ := v
      cases own
      exact ⟨_, _, span, .codecConfig type body⟩
    | audioElement =>
      simp only [type] at step
      obtain ⟨⟨header, u, left⟩, c2, read, last⟩ := bindOk step
      obtain ⟨payload, span, parsed⟩ := readObuWithRebased.mp read
      obtain ⟨rfl, v, trailing, body, rfl⟩ := parsePayloadTrailing.mp parsed
      have own := (audioElementReadsBack _ _ _ body).1.own
      cases last
      cases here span
      obtain ⟨id, reserved, kind, codecConfigId, substreams, params, _⟩ := v
      cases own
      exact ⟨_, _, span, .audioElement type body⟩
    | mixPresentation =>
      simp only [type] at step
      obtain ⟨⟨header, u, left⟩, c2, read, last⟩ := bindOk step
      obtain ⟨payload, span, parsed⟩ := readObuWithRebased.mp read
      obtain ⟨rfl, v, trailing, body, rfl⟩ := parsePayloadTrailing.mp parsed
      have own := (mixPresentationReadsBack _ _ _ body).1.1
      cases last
      cases here span
      obtain ⟨id, languages, annotations, subMixes, _⟩ := v
      cases own
      exact ⟨_, _, span, .mixPresentation type body⟩
    | parameterBlock =>
      simp only [type] at step
      obtain ⟨⟨header, id, rest⟩, c2, look, step2⟩ := bindOk step
      cases peekOk look
      obtain ⟨payload, span, seen⟩ : ∃ payload, (∃ c, readObuSpan r = .ok (header, payload) c) ∧
          parsePayload (@readUleb128 sourceForms) payload = .ok (id, rest) := by
        unfold peek at look
        split at look
        · rename_i value c2 read
          cases look
          obtain ⟨payload, span, seen⟩ := readObuWithRebased.mp read
          exact ⟨payload, ⟨c2, span⟩, seen⟩
        · cases look
      obtain ⟨c3, first⟩ := span
      cases here first
      simp only at step2
      split at step2
      · rename_i governed
        obtain ⟨⟨header, v, trailing⟩, c4, read, last⟩ := bindOk step2
        obtain ⟨payload', span, parsed⟩ := readObuWithRebased.mp read
        cases last
        cases first.symm.trans span
        exact ⟨_, _, span, .parameterBlock type seen governed parsed⟩
      · rename_i ungoverned
        obtain ⟨⟨header, raw, left⟩, c4, read, last⟩ := bindOk step2
        obtain ⟨payload', span, parsed⟩ := readObuWithRebased.mp read
        obtain ⟨rfl, rfl⟩ := parsePayloadAll.mp parsed
        cases last
        cases first.symm.trans span
        exact ⟨_, _, span, .ungovernedParameterBlock type seen (Bool.not_eq_true _ ▸ ungoverned)⟩
    | temporalDelimiter =>
      simp only [type] at step
      obtain ⟨⟨header, v, trailing⟩, c2, read, last⟩ := bindOk step
      obtain ⟨payload, span, parsed⟩ := readObuWithRebased.mp read
      cases parsePayloadDelimiter.mp parsed
      cases last
      cases here span
      exact ⟨_, _, span, .temporalDelimiter type⟩
    | reserved raw =>
      simp only [type] at step
      obtain ⟨⟨header, bytes, left⟩, c2, read, last⟩ := bindOk step
      obtain ⟨payload, span, parsed⟩ := readObuWithRebased.mp read
      obtain ⟨rfl, rfl⟩ := parsePayloadAll.mp parsed
      cases last
      cases here span
      exact ⟨_, _, span, .unknown type⟩
    | audioFrame =>
      simp only [type] at step
      obtain ⟨⟨header, v, trailing⟩, c2, read, last⟩ := bindOk step
      obtain ⟨payload, span, parsed⟩ := readObuWithHeaderOk.mp read
      cases last
      cases here span
      exact ⟨_, _, span, .audioFrame (.inl type) (parsePayloadRebased.mp parsed)⟩
    | audioFrameId id =>
      simp only [type] at step
      obtain ⟨⟨header, v, trailing⟩, c2, read, last⟩ := bindOk step
      obtain ⟨payload, span, parsed⟩ := readObuWithHeaderOk.mp read
      cases last
      cases here span
      exact ⟨_, _, span, .audioFrame (.inr ⟨id, type⟩) (parsePayloadRebased.mp parsed)⟩
  · rintro ⟨header, payload, span, decodes⟩
    obtain ⟨base, ahead⟩ := inspectHeaderOf span
    unfold nextObu
    rw [bindOf _ ahead]
    have reads {T : Type} {f : Reader T} {v : T} {trailing : Bytes}
        (parsed : parsePayload f payload = .ok (v, trailing)) :
        readObuWith (rebased base f) r = .ok ⟨header, v, trailing⟩ r' :=
      readObuWithRebased.mpr ⟨payload, span, parsed⟩
    cases decodes with
    | @iaSequenceHeader v trailing type parsed =>
      have own := (sequenceHeaderReadsBack True parsed).1
      simp only [type]
      have whole : parsePayload readIaSequenceHeader payload = .ok ({ v with trailing := trailing }, []) :=
        parsePayloadTrailing.mpr ⟨rfl, v, trailing, parsed, rfl⟩
      rw [bindOf _ (reads whole)]
      obtain ⟨code, primary, additional, _⟩ := v
      cases own
      rfl
    | @codecConfig v trailing type parsed =>
      have own := (codecConfigReadsBack _ _ _ parsed).1.own
      simp only [type]
      have whole : parsePayload readCodecConfig payload = .ok ({ v with trailing := trailing }, []) :=
        parsePayloadTrailing.mpr ⟨rfl, v, trailing, parsed, rfl⟩
      rw [bindOf _ (reads whole)]
      obtain ⟨id, codecId, samples, roll, decoder, _⟩ := v
      cases own
      rfl
    | @audioElement v trailing type parsed =>
      have own := (audioElementReadsBack _ _ _ parsed).1.own
      simp only [type]
      have whole : parsePayload readAudioElement payload = .ok ({ v with trailing := trailing }, []) :=
        parsePayloadTrailing.mpr ⟨rfl, v, trailing, parsed, rfl⟩
      rw [bindOf _ (reads whole)]
      obtain ⟨id, reserved, kind, codecConfigId, substreams, params, _⟩ := v
      cases own
      rfl
    | @mixPresentation v trailing type parsed =>
      have own := (mixPresentationReadsBack _ _ _ parsed).1.1
      simp only [type]
      have whole : parsePayload readMixPresentation payload = .ok ({ v with trailing := trailing }, []) :=
        parsePayloadTrailing.mpr ⟨rfl, v, trailing, parsed, rfl⟩
      rw [bindOf _ (reads whole)]
      obtain ⟨id, languages, annotations, subMixes, _⟩ := v
      cases own
      rfl
    | @parameterBlock id rest v trailing type inspected governed parsed =>
      have look : peek (readObuWith (rebased base (@readUleb128 sourceForms))) r = .ok ⟨header, id, rest⟩ r := by
        simp only [peek, reads inspected]
      simp only [type]
      rw [bindOf _ look]
      simp only [governed, if_true]
      rw [bindOf _ (reads parsed)]
      rfl
    | @ungovernedParameterBlock id rest type inspected ungoverned =>
      have look : peek (readObuWith (rebased base (@readUleb128 sourceForms))) r = .ok ⟨header, id, rest⟩ r := by
        simp only [peek, reads inspected]
      simp only [type]
      rw [bindOf _ look]
      simp only [ungoverned, Bool.false_eq_true, if_false]
      rw [bindOf _ (reads (parsePayloadAll.mpr ⟨rfl, rfl⟩))]
      rfl
    | temporalDelimiter type =>
      simp only [type]
      rw [bindOf _ (reads (parsePayloadDelimiter.mpr rfl))]
      rfl
    | @audioFrame v trailing type parsed =>
      have read : readObuWithHeader (fun actual => rebased base (readAudioFrame actual)) r =
          .ok ⟨header, v, trailing⟩ r' :=
        readObuWithHeaderOk.mpr ⟨payload, span, parsePayloadRebased.mpr parsed⟩
      rcases type with type | ⟨id, type⟩
      · simp only [type]
        rw [bindOf _ read]
        rfl
      · simp only [type]
        rw [bindOf _ read]
        rfl
    | unknown type =>
      simp only [type]
      rw [bindOf _ (reads (parsePayloadAll.mpr ⟨rfl, rfl⟩))]
      rfl

theorem frameOctets {frame : List Bool} {header : ObuHeader} {payload : Bytes}
    (source : FrameSource frame header payload) : ∃ k, 1 ≤ k ∧ frame.length = 8 * k := by
  cases source with
  | intro raw redundant trimmed extended n obuSize span =>
    refine ⟨1 + n + span.length, by omega, ?_⟩
    simp only [firstByteBits, List.length_append, bitsOfLength, ulebBitsLength, bytesBitsLength]
    omega

inductive SequenceSource : ParamDefinitionRegistry → List Bool → List SequenceObu → ParamDefinitionRegistry → Prop where
  | nil {registry} : SequenceSource registry [] [] registry
  | cons {registry next last frame header payload obu bits obus} (source : FrameSource frame header payload)
      (decodes : Decodes registry header payload obu next) (tail : SequenceSource next bits obus last) :
      SequenceSource registry (frame ++ bits) (obu :: obus) last

theorem sourceOctets {registry last : ParamDefinitionRegistry} {bits : List Bool} {obus : List SequenceObu}
    (source : SequenceSource registry bits obus last) : ∃ k, obus.length ≤ k ∧ bits.length = 8 * k := by
  induction source with
  | nil => exact ⟨0, Nat.le_refl _, rfl⟩
  | cons source _ _ ih =>
    obtain ⟨m, positive, size⟩ := frameOctets source
    obtain ⟨k, enough, length⟩ := ih
    exact ⟨m + k, by rw [List.length_cons]; omega, by rw [List.length_append]; omega⟩

theorem nextOk {s s' : SequenceReader} {obu : SequenceObu} (ready : s.Ready) :
    s.next = (some (.ok obu), s') ↔ ∃ frame tail header payload, rest s.reader = frame ++ tail ∧
      FrameSource frame header payload ∧ Decodes s.registry header payload obu s'.registry ∧
      s'.reader = advance frame.length s.reader ∧ s'.Ready := by
  unfold SequenceReader.next
  rw [ready.running, Bool.false_or]
  constructor
  · intro ok
    split at ok
    · cases ok
    split at ok
    · rename_i found registry reader read
      cases ok
      obtain ⟨header, payload, span, decodes⟩ := nextObuOk.mp read
      obtain ⟨frame, tail, split, moved, source⟩ := readObuSpanSource ready.aligned span
      obtain ⟨k, _, size⟩ := frameOctets source
      refine ⟨frame, tail, header, payload, split, source, decodes, moved, ?_, rfl⟩
      rw [moved, size]
      exact (advanceAligned ready.aligned (by rw [split, List.length_append]; omega)).2
    · cases ok
  · rintro ⟨frame, tail, header, payload, split, source, decodes, moved, ready'⟩
    obtain ⟨k, positive, size⟩ := frameOctets source
    have total := remainingOfRest ready.aligned
    rw [split, List.length_append] at total
    have span := readsObuSpan source s.reader tail (by rw [phaseIsBitOff, ready.aligned]) split
    have read := nextObuOk.mpr ⟨header, payload, span, decodes⟩
    rw [if_neg (by simp; omega), read]
    obtain ⟨reader, registry, finished⟩ := s'
    cases moved
    cases ready'.running
    rfl

inductive Yields : SequenceReader → List SequenceObu → SequenceReader → Prop where
  | refl {s} : Yields s [] s
  | step {s s' s'' obu obus} (next : s.next = (some (.ok obu), s')) (tail : Yields s' obus s'') :
      Yields s (obu :: obus) s''

theorem yieldsSource {s s' : SequenceReader} {obus : List SequenceObu} (yields : Yields s obus s') (ready : s.Ready) :
    s'.Ready ∧ ∃ bits, rest s.reader = bits ++ rest s'.reader ∧
      s'.reader = advance bits.length s.reader ∧ SequenceSource s.registry bits obus s'.registry := by
  induction yields with
  | refl => exact ⟨ready, [], rfl, (advanceZero _).symm, .nil⟩
  | @step s s' s'' obu obus next _ ih =>
    obtain ⟨frame, tail, header, payload, split, source, decodes, moved, ready'⟩ := (nextOk ready).mp next
    obtain ⟨ready'', bits, split', moved', others⟩ := ih ready'
    have inside : frame.length ≤ (rest s.reader).length := by rw [split]; simp
    have behind := restAdvance frame.length _ inside
    rw [← moved, split, List.drop_left] at behind
    refine ⟨ready'', frame ++ bits, ?_, ?_, .cons source decodes others⟩
    · rw [split, List.append_assoc, ← split', behind]
    · rw [moved', moved, advanceAdd _ _ _ (by
        rw [split, ← behind, split', List.length_append, List.length_append]; omega), List.length_append]

theorem sourceYields {registry last : ParamDefinitionRegistry} {bits tail : List Bool} {obus : List SequenceObu}
    (source : SequenceSource registry bits obus last) {c : BitCursor} (aligned : c.bitOff = 0)
    (split : rest c = bits ++ tail) : Yields ⟨c, registry, false⟩ obus ⟨advance bits.length c, last, false⟩ := by
  induction source generalizing c with
  | nil => rw [List.length_nil, advanceZero]; exact .refl
  | @cons registry next last frame header payload obu bits obus source decodes _ ih =>
    obtain ⟨k, positive, size⟩ := frameOctets source
    rw [List.append_assoc] at split
    have inside : frame.length ≤ (rest c).length := by rw [split]; simp
    have aligned' : (advance frame.length c).bitOff = 0 := by
      rw [size]
      exact (advanceAligned aligned (by omega)).2
    have behind := restAdvance frame.length c inside
    rw [split, List.drop_left] at behind
    have first : SequenceReader.next ⟨c, registry, false⟩ = (some (.ok obu), ⟨advance frame.length c, next, false⟩) :=
      (nextOk ⟨aligned, rfl⟩).mpr ⟨frame, bits ++ tail, header, payload, split, source, decodes, rfl, aligned', rfl⟩
    have others := ih aligned' behind
    rw [advanceAdd _ _ _ (by rw [split, List.length_append, List.length_append]; omega),
      ← List.length_append] at others
    exact .step first others

end

end Iamf.Wire
