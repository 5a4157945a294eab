import Iamf.EmitsWithin
import Iamf.EncoderRoundTrip
import Iamf.Fuzzing

/-! Whatever the fuzzer chooses, the generated sequence is written, and what is written is read
as that sequence: no run of the round trip target aborts. -/
namespace Iamf.Wire.Fuzzing
open Bits BitString TapeCodec ReadTape WriteTape

theorem blockSendable {registry : ParamDefinitionRegistry} {v : ParameterBlock} {entry : RegisteredParamDefinition}
    {trailing : Bytes} {limit : Nat} (found : registry.get v.parameterId = some entry) (plain : v.Plain)
    (within : EmitsWithin limit (writeParameterBlock entry.definition entry.context v))
    (short : limit + trailing.length ≤ payloadMax) :
    (SequenceObu.parameterBlock ⟨.new .parameterBlock, v, trailing⟩).Sendable registry := by
  refine ⟨.parameterBlock (normalNew id rfl) rfl plain, ?_⟩
  obtain ⟨payload, encoded, small⟩ := withinFinished within
  have framed : Writable (writeObu (.new .parameterBlock) (payload ++ trailing)) :=
    framedWritable (by decide) rfl (show finishWriter _ = .ok [] from rfl)
      (by rw [List.length_append, List.length_nil]; omega)
  obtain ⟨bytes, framed⟩ := framed
  refine ⟨bytes, ?_⟩
  unfold writeSequenceObu
  simp only [found]
  exact writeObuWithHeaderFinished.mpr ⟨payload, encoded, framed⟩

theorem frameSendable (registry : ParamDefinitionRegistry) (frame : AudioFrame)
    (short : 15 + frame.payload.length ≤ payloadMax) : (SequenceObu.audioFrame (frame.intoObu none)).Sendable registry :=
  ⟨frameSettled registry frame none, frameWritable frame none short⟩

theorem delimiterSendable (registry : ParamDefinitionRegistry) :
    (SequenceObu.temporalDelimiter (.new (.new .temporalDelimiter) ⟨⟩)).Sendable registry :=
  ⟨.temporalDelimiter (normalNew id rfl) rfl, ⟨[0x20, 0], rfl⟩⟩

theorem unknownSendable (registry : ParamDefinitionRegistry) (shape : UInt8) {payload : Bytes}
    (short : 8 + payload.length ≤ payloadMax) : (unknownObu shape payload).Sendable registry := by
  have type : (ObuHeader.new (.reserved 27)).obuType = .reserved 27 := rfl
  refine ⟨.unknown ⟨?_, fun trim kind => (by cases kind), fun _ => rfl⟩ type, ?_⟩
  · change ¬ ((27 : UInt8).toNat ≤ 23 ∨ (27 : UInt8) = 31)
    decide
  · have fields : EmitsWithin (0 + (5 + 3))
        (writeFieldsAfterObuSize ⟨.reserved 27, false, .reserved, some [0x91, shape, 0xfe]⟩) :=
      withinBind (withinPure 0) (withinExtension [0x91, shape, 0xfe] (by simp [u32Max]))
    obtain ⟨bytes, encoded, small⟩ := withinFinished fields
    change Writable (writeObu ⟨.reserved 27, false, .reserved, some [0x91, shape, 0xfe]⟩ payload)
    exact framedWritable (show (27 : UInt8).toNat < 32 by decide) rfl encoded (by omega)

theorem oneNotZero : (1 : UInt32) ≠ 0 := by decide

theorem rawBlockSendable {framePayload : Bytes} (short : framePayload.length ≤ maxFramePayload) :
    ∃ payload, ungovernedRawBlockPayload framePayload = .ok payload ∧ ∀ registry : ParamDefinitionRegistry,
      registry.get 12 = none →
        (SequenceObu.ungovernedParameterBlock ⟨.new .parameterBlock, payload⟩).Sendable registry := by
  have within {bytes : Bytes} (piece : bytes.length ≤ framePayload.length) :
      EmitsWithin (5 + maxFramePayload) (writeParameterData (.reserved 7) (.raw bytes)) :=
    withinMono (withinRaw bytes (by unfold maxFramePayload at short; unfold u32Max; omega)) (by omega)
  obtain ⟨behind, small, emits⟩ : EmitsWithin 84 (writeBlockDurations (rawBlock framePayload) >>= fun _ =>
      writeEach (writeSubblock (.reserved 7)) (rawBlock framePayload).subblocks) := by
    refine withinBehindId (rawBlock framePayload) (n := 5 + maxFramePayload) rfl oneNotZero fun subblock among => ?_
    rcases List.mem_cons.mp among with rfl | among
    · exact ⟨rfl, within (by simp)⟩
    · rw [List.mem_singleton.mp among]
      exact ⟨rfl, within (by simp)⟩
  have id : finishWriter (writeUleb128Minimal 12) = .ok [12] := rfl
  have valid : validateParameterBlock (.mode1 12 48000) (.reserved 7) (rawBlock framePayload) = .ok () := rfl
  have whole : Emits (writeParameterBlock (.mode1 12 48000) (.reserved 7) (rawBlock framePayload))
      (bytesBits ([12] ++ behind)) := by
    unfold writeParameterBlock
    rw [orThrowOf _ valid, bytesBitsAppend]
    exact emitsBind (emitsUleb128 12) emits
  refine ⟨[12] ++ behind, ?_, fun registry absent => ⟨?_, ?_⟩⟩
  · change incorrectFormat (finishWriter _) = _
    rw [finishWriterOk rfl (whole .new)]
    rfl
  · exact .ungovernedParameterBlock (normalNew not_false rfl) rfl (parsePayloadPaired (pairedUleb128 0 12) id behind)
      (by rw [absent]; rfl)
  · change Writable (writeObu (.new .parameterBlock) ([12] ++ behind))
    refine framedWritable (by decide) rfl (show finishWriter _ = .ok [] from rfl) ?_
    rw [List.length_append, List.length_nil]
    exact le_trans (Nat.add_le_add_left (Nat.add_le_add_left small _) _) (by decide)

structure Governs (registry : ParamDefinitionRegistry) : Prop where
  demixing : registry.get 10 = some ⟨{ ParamDefinition.mode1 10 48000 with reserved := 0x55 }, .demixing⟩
  reconGain : registry.get 11 = some ⟨{ ParamDefinition.mode1 11 48000 with reserved := 0x33 }, .reconGain [true]⟩
  raw : registry.get 12 = none
  elementGain : registry.get 13 = some ⟨{ ParamDefinition.mode1 13 48000 with reserved := 0x2d }, .mixGain⟩
  outputGain : registry.get 14 = some ⟨{ ParamDefinition.mode1 14 48000 with reserved := 0x35 }, .mixGain⟩

theorem plainReconGain : PlainGains 0x0801 0 [1, 0, 0, 0, 0, 0, 0, 0, 0, 0, 0, 0xfe] := by
  simp only [PlainGains, and_true]
  decide

theorem richBlockSendable {registry : ParamDefinitionRegistry} (governs : Governs registry) (gain : Int16)
    {trailing : Bytes} (short : trailing.length ≤ 2) {v : ParameterBlock} (among : v ∈ richBlocks gain) :
    (SequenceObu.parameterBlock ⟨.new .parameterBlock, v, trailing⟩).Sendable registry := by
  have room {n : Nat} (small : n ≤ 1000) : n + trailing.length ≤ payloadMax := by
    have large : 1002 ≤ payloadMax := by decide
    omega
  simp only [richBlocks, List.mem_cons, List.not_mem_nil, or_false] at among
  rcases among with rfl | rfl | rfl | rfl
  · refine blockSendable governs.demixing (by simp [ParameterBlock.Plain, ParameterData.Plain, block]) ?_
      (room (n := 16) (by omega))
    refine withinBlock rfl (withinBehindId (block 10 _) (n := 1) rfl oneNotZero fun subblock among => ?_)
    rw [List.mem_singleton.mp among]
    exact ⟨rfl, withinDemixing (by decide) (by decide)⟩
  · refine blockSendable governs.reconGain ?_ ?_ (room (n := 32) (by omega))
    · simp only [ParameterBlock.Plain, block, List.forall_mem_singleton, ParameterData.Plain]
      intro element among
      cases Option.some.inj (List.mem_singleton.mp among)
      exact plainReconGain
    refine withinBlock rfl (withinBehindId (block 11 _) (n := 17) rfl oneNotZero fun subblock among => ?_)
    rw [List.mem_singleton.mp among]
    exact ⟨rfl, withinReconGain _⟩
  · refine blockSendable governs.elementGain (by simp [ParameterBlock.Plain, ParameterData.Plain]) ?_
      (room (n := 51) (by omega))
    refine withinMono (withinBlock rfl (withinBehindId _ (n := 12) rfl oneNotZero fun subblock among => ?_))
      (Nat.le_refl 51)
    simp only [List.mem_cons, List.not_mem_nil, or_false] at among
    rcases among with rfl | rfl | rfl <;> exact ⟨rfl, withinMixGain _⟩
  · refine blockSendable governs.outputGain (by simp [ParameterBlock.Plain, ParameterData.Plain, block]) ?_
      (room (n := 27) (by omega))
    refine withinBlock rfl (withinBehindId (block 14 _) (n := 12) rfl oneNotZero fun subblock among => ?_)
    rw [List.mem_singleton.mp among]
    exact ⟨rfl, withinMixGain _⟩

theorem followedCases {ungoverned obu : SequenceObu} {obus : List SequenceObu}
    (among : obu ∈ obus.flatMap (followedBy ungoverned)) : obu ∈ obus ∨ obu = ungoverned := by
  obtain ⟨origin, inside, copied⟩ := List.mem_flatMap.mp among
  have here : obu = origin ∨ obu = ungoverned := by
    unfold followedBy at copied
    split at copied
    · split at copied
      · simpa using copied
      · exact .inl (List.mem_singleton.mp copied)
    · exact .inl (List.mem_singleton.mp copied)
  rcases here with rfl | same
  · exact .inl inside
  · exact .inr same

theorem richUnitSendable {registry : ParamDefinitionRegistry} (governs : Governs registry) {index : Nat}
    {delimiters : Bool} {framePayload : Bytes} (short : framePayload.length ≤ maxFramePayload) {gain : Int16}
    {obu : SequenceObu} (among : obu ∈ (richUnit index delimiters framePayload gain).obus) :
    obu.Sendable registry ∧ obu.Silent := by
  have room : 15 + framePayload.length ≤ payloadMax := le_trans (Nat.add_le_add_left short 15) (by decide)
  simp only [TemporalUnit.obus, List.mem_append, List.mem_map] at among
  rcases among with ⟨delimiter, _, rfl⟩ | ⟨submitted, inside, rfl⟩ | ⟨frame, inside, rfl⟩
  · exact ⟨delimiterSendable registry, fun _ => rfl⟩
  · refine ⟨?_, fun _ => rfl⟩
    obtain ⟨v, known, trailing, small, rfl⟩ : ∃ v ∈ richBlocks gain, ∃ trailing : Bytes, trailing.length ≤ 2 ∧
        submitted = ⟨.new .parameterBlock, v, trailing⟩ := by
      unfold richUnit at inside
      simp only at inside
      split at inside
      · simp only [richBlocks, List.map_cons, List.modifyHead_cons] at inside
        rcases List.mem_cons.mp inside with rfl | inside
        · exact ⟨_, List.mem_cons_self, [0xde, 0xad], Nat.le_refl 2, rfl⟩
        · obtain ⟨v, known, rfl⟩ : ∃ v ∈ (richBlocks gain).tail, Obu.new (.new .parameterBlock) v = submitted :=
            List.mem_map.mp inside
          exact ⟨v, List.mem_of_mem_tail known, [], Nat.zero_le _, rfl⟩
      · obtain ⟨v, known, rfl⟩ := List.mem_map.mp inside
        exact ⟨v, known, [], Nat.zero_le _, rfl⟩
    exact richBlockSendable governs gain small known
  · refine ⟨?_, fun _ => rfl⟩
    simp only [richUnit, List.mem_cons, List.not_mem_nil, or_false] at inside
    rcases inside with rfl | rfl
    · exact frameSendable registry ⟨0, framePayload⟩ room
    · exact frameSendable registry ⟨18, framePayload.reverse⟩ (by rw [List.length_reverse]; exact room)

def rawDefinitionBytes : Bytes := [12, 0x80, 0xf7, 2, 0xc5]

theorem rawDefinition :
    definitionBytes { ParamDefinition.mode1 12 48000 with reserved := 0x45 } = .ok rawDefinitionBytes := by
  decide +kernel

def richSet : DescriptorSet := ⟨.new 0 0, [richCodec], [richElement rawDefinitionBytes], [richPresentation]⟩

def redundantElement : SequenceObu :=
  .audioElement ⟨⟨.audioElement, true, .reserved, none⟩, { richElement rawDefinitionBytes with trailing := [] },
    [0xa1, 0xb2]⟩

def richDescriptors : List SequenceObu := [.ofSequenceHeader (.new 0 0), .ofCodecConfig richCodec,
  .ofAudioElement (richElement rawDefinitionBytes), .ofMixPresentation richPresentation]

def repeatedDescriptors : List SequenceObu := [.ofSequenceHeader (.new 0 0), .ofCodecConfig richCodec,
  .ofAudioElement (richElement rawDefinitionBytes), redundantElement, .ofMixPresentation richPresentation]

theorem richObus : richSet.obus = richDescriptors := by
  simp only [DescriptorSet.obus, DescriptorSet.sortedConfigs, DescriptorSet.sortedElements, sortedById, richSet,
    List.mergeSort_singleton, List.map_cons, List.map_nil, List.cons_append, List.nil_append, richDescriptors]

theorem repeatedWritten : (finishWriter (writeSequenceObus .new repeatedDescriptors)).toOption.isSome = true := by
  decide +kernel

theorem writableOf {g : Writer Unit} (some : (finishWriter g).toOption.isSome = true) : Writable g := by
  cases done : finishWriter g with
  | ok bytes => exact ⟨bytes, done⟩
  | error e =>
    rw [done] at some
    cases some

theorem sendableOf {registry : ParamDefinitionRegistry} {obus : List SequenceObu} (settled : SettledObus registry obus)
    (written : Writable (writeSequenceObus registry obus)) : SendableObus registry obus := by
  induction settled with
  | nil => exact .nil
  | cons first _ ih =>
    obtain ⟨head, tail⟩ := (writableBind (octetsWriteSequenceObu _ _) (octetsWriteSequenceObus _ _)).mp written
    exact .cons ⟨first, head⟩ (ih tail)

theorem repeatedSettled (registry : ParamDefinitionRegistry) : SettledObus registry repeatedDescriptors := by
  have element : { richElement rawDefinitionBytes with trailing := [] }.Settled [0xa1, 0xb2] := by
    refine ⟨rfl, fun layer among => ?_⟩
    rw [List.mem_singleton.mp among]
    rfl
  refine .cons (.iaSequenceHeader (normalNew id rfl) rfl rfl)
    (.cons (.codecConfig (normalNew id rfl) rfl ⟨rfl, .inl ⟨rfl, rfl⟩⟩)
    (.cons (.audioElement (normalNew id rfl) rfl element) (.cons (.audioElement ?_ rfl element)
      (.cons (.mixPresentation (normalNew id rfl) rfl ?_) .nil))))
  · exact ⟨id, fun trim kind => (by cases kind), fun _ => rfl⟩
  · refine ⟨rfl, fun subMix among => ?_⟩
    rw [List.mem_singleton.mp among]
    exact ⟨fun element inside => (by rw [List.mem_singleton.mp inside]; rfl),
      fun layout inside => (by rw [List.mem_singleton.mp inside]; rfl)⟩

theorem repeatedSendable : SendableObus .new repeatedDescriptors :=
  sendableOf (repeatedSettled _) (writableOf repeatedWritten)

theorem richSendable : SendableObus .new richDescriptors := by
  cases repeatedSendable with
  | cons header others =>
    cases others with
    | cons codec others =>
      cases others with
      | cons element others =>
        cases others with
        | cons redundant others =>
          cases others with
          | cons presentation others =>
            refine .cons header (.cons codec (.cons element (.cons ⟨?_, presentation.written⟩ .nil)))
            cases presentation.settled with
            | mixPresentation normal type settled => exact .mixPresentation normal type settled

theorem richGoverns : Governs (richDescriptors.foldl ParamDefinitionRegistry.observeObu .new) :=
  ⟨rfl, rfl, rfl, rfl, rfl⟩

theorem repeatedGoverns : Governs (repeatedDescriptors.foldl ParamDefinitionRegistry.observeObu .new) :=
  ⟨rfl, rfl, rfl, rfl, rfl⟩

theorem behindDescriptors {descriptors : List SequenceObu} (sendable : SendableObus .new descriptors)
    (governs : Governs (descriptors.foldl ParamDefinitionRegistry.observeObu .new)) (unitCount : Nat)
    (delimiters : Bool) {framePayload : Bytes} (short : framePayload.length ≤ maxFramePayload) (gain : Int16)
    {ungoverned : SequenceObu} (silent : ungoverned.Silent)
    (raw : ∀ registry : ParamDefinitionRegistry, registry.get 12 = none → ungoverned.Sendable registry) :
    SendableObus .new (descriptors ++ (((List.range unitCount).map fun index =>
      richUnit index delimiters framePayload gain).flatMap (·.obus)).flatMap (followedBy ungoverned)) := by
  refine sendableAppend.mpr ⟨sendable, sendableSilent fun obu among => ?_⟩
  rcases followedCases among with inside | rfl
  · obtain ⟨unit, listed, own⟩ := List.mem_flatMap.mp inside
    obtain ⟨index, _, rfl⟩ := List.mem_map.mp listed
    exact richUnitSendable governs short own
  · exact ⟨raw _ governs.raw, silent⟩

theorem richSequence (unitCount : Nat) (delimiters : Bool) {framePayload : Bytes}
    (short : framePayload.length ≤ maxFramePayload) (gain : Int16) : ∃ units behind,
    richCase unitCount delimiters framePayload gain = .ok (richSet, units) ∧
      insertUngovernedRawBlocks (.fromParts richSet units) framePayload = .ok ⟨richDescriptors ++ behind⟩ ∧
      SendableObus .new (richDescriptors ++ behind) ∧ SendableObus .new (repeatedDescriptors ++ behind) := by
  obtain ⟨payload, written, raw⟩ := rawBlockSendable short
  have cased : richCase unitCount delimiters framePayload gain = .ok (richSet,
      (List.range unitCount).map fun index => richUnit index delimiters framePayload gain) := by
    unfold richCase
    rw [exceptBindOf _ rawDefinition]
    rfl
  refine ⟨_, _, cased, ?_,
    behindDescriptors richSendable richGoverns unitCount delimiters short gain (fun _ => rfl) raw,
    behindDescriptors repeatedSendable repeatedGoverns unitCount delimiters short gain (fun _ => rfl) raw⟩
  unfold insertUngovernedRawBlocks
  rw [exceptBindOf _ written]
  simp only [ParsedSequence.fromParts, richObus, List.flatMap_append]
  rfl

def Exact (input : Unstructured) : Prop := ∀ n s v s', input.bytes n s = .ok v s' → v.length = n

theorem headerSendable : SendableObus .new (ParsedSequence.fromParts ⟨.new 0 0, [], [], []⟩ []).obus := by
  have single : (ParsedSequence.fromParts ⟨.new 0 0, [], [], []⟩ []).obus = [.ofSequenceHeader (.new 0 0)] := by
    simp only [ParsedSequence.fromParts, DescriptorSet.obus, DescriptorSet.sortedConfigs, DescriptorSet.sortedElements,
      sortedById, List.mergeSort_nil, List.map_nil, List.append_nil, List.flatMap_nil]
  rw [single]
  cases repeatedSendable with
  | cons header others => exact .cons header .nil

theorem generatedSendable {input : Unstructured} (exact : Exact input) {s s' : input.State} {sequence : ParsedSequence}
    (ok : sequenceFromFuzzBytes input s = .ok sequence s') : SendableObus .new sequence.obus := by
  obtain ⟨choice, s1, _, ok⟩ := bindOk ok
  simp only at ok
  split at ok
  · cases ok
    exact .nil
  split at ok
  · cases ok
    exact headerSendable
  obtain ⟨requestedUnits, s2, _, ok⟩ := bindOk ok
  obtain ⟨requestedPayload, s3, _, ok⟩ := bindOk ok
  obtain ⟨framePayload, s4, taken, ok⟩ := bindOk ok
  obtain ⟨gain, s5, _, ok⟩ := bindOk ok
  have short : framePayload.length ≤ maxFramePayload := by
    rw [exact _ _ _ _ taken]
    exact Nat.le_of_lt_succ (Nat.mod_lt _ (Nat.succ_pos _))
  obtain ⟨units, behind, cased, inserted, plain, repeated⟩ := richSequence
    (requestedUnits.toNat % maxTemporalUnits + 1) (decide (choice % 8 = 3 ∨ choice % 8 = 5 ∨ choice % 8 = 7))
    short gain
  rw [orThrowOf _ cased] at ok
  simp only at ok
  rw [orThrowOf _ inserted] at ok
  have either : SendableObus .new (if choice % 8 = 4 ∨ choice % 8 = 7 then
      insertRedundantDescriptor (richDescriptors ++ behind) else richDescriptors ++ behind) := by
    split
    · exact repeated
    · exact plain
  split at ok
  · obtain ⟨requestedPosition, s6, _, ok⟩ := bindOk ok
    obtain ⟨unknownLen, s7, _, ok⟩ := bindOk ok
    obtain ⟨payload, s8, filled, ok⟩ := bindOk ok
    cases ok
    have small : payload.length ≤ 9 := by
      rw [exact _ _ _ _ filled]
      exact Nat.le_of_lt (Nat.mod_lt _ (by omega))
    have room : 8 + payload.length ≤ payloadMax := le_trans (Nat.add_le_add_left small 8) (by decide)
    refine sendableInsert either (fun registry => unknownSendable registry _ room) (fun _ => rfl) _ ?_
    exact Nat.le_of_lt_succ (Nat.mod_lt _ (Nat.succ_pos _))
  · cases ok
    exact either

section

variable {E S α β : Type}

def noting (f : EStateM E S α) : EStateM E (S × List (Option E)) α := fun s =>
  match f s.1 with
  | .ok v s' => .ok v (s', s.2 ++ [none])
  | .error e s' => .error e (s', s.2 ++ [some e])

/-- The results of a run without and with its requests noted: it fails at the first one that is not
answered, with the error of that one, and nowhere else. -/
inductive Noted (log : List (Option E)) : EStateM.Result E S α → EStateM.Result E (S × List (Option E)) α → Prop where
  | ok {v s} (answered : Nat) : Noted log (.ok v s) (.ok v (s, log ++ List.replicate answered none))
  | error {e s} (answered : Nat) : Noted log (.error e s) (.error e (s, log ++ List.replicate answered none ++ [some e]))

def NotedBy (f : EStateM E S α) (g : EStateM E (S × List (Option E)) α) : Prop := ∀ s log, Noted log (f s) (g (s, log))

theorem notedPure (v : α) : NotedBy (pure v : EStateM E S α) (pure v) := by
  intro s log
  have none : Noted log (EStateM.Result.ok v s : EStateM.Result E S α) (.ok v (s, log ++ List.replicate 0 none)) := .ok 0
  rwa [List.replicate_zero, List.append_nil] at none

theorem notedRequest (f : EStateM E S α) : NotedBy f (noting f) := by
  intro s log
  unfold noting
  cases f s with
  | ok v s' => exact .ok 1
  | error e s' =>
    have first : Noted log (EStateM.Result.error e s' : EStateM.Result E S α)
      (.error e (s', log ++ List.replicate 0 none ++ [some e])) := .error 0
    rwa [List.replicate_zero, List.append_nil] at first

theorem notedBind {f : EStateM E S α} {g : EStateM E (S × List (Option E)) α} {k : α → EStateM E S β}
    {k' : α → EStateM E (S × List (Option E)) β} (first : NotedBy f g)
    (next : ∀ v s s', f s = .ok v s' → NotedBy (k v) (k' v)) : NotedBy (f >>= k) (g >>= k') := by
  intro s log
  have noted := first s log
  rcases ran : f s with ⟨v, s'⟩ | ⟨e, s'⟩ <;> rw [ran] at noted
  · generalize ran' : g (s, log) = r at noted
    cases noted with
    | ok answered =>
      rw [bindOf _ ran, bindOf _ ran']
      have rest := next v s s' ran s' (log ++ List.replicate answered none)
      generalize k v s' = a, k' v (s', log ++ List.replicate answered none) = b at rest
      cases rest with
      | ok more =>
        rw [List.append_assoc, List.replicate_append_replicate]
        exact .ok _
      | error more =>
        rw [List.append_assoc log, List.replicate_append_replicate]
        exact .error _
  · generalize ran' : g (s, log) = r at noted
    cases noted with
    | error answered =>
      rw [bindError _ ran, bindError _ ran']
      exact .error answered

end

def recorded (input : Unstructured) : Unstructured where
  State := input.State × List (Option ArbitraryError)
  new data := (input.new data, [])
  arbitraryU8 := noting input.arbitraryU8
  arbitraryI16 := noting input.arbitraryI16
  bytes n := noting (input.bytes n)

theorem generatorNoted {input : Unstructured} (exact : Exact input) :
    NotedBy (sequenceFromFuzzBytes input) (sequenceFromFuzzBytes (recorded input)) := by
  refine notedBind (notedRequest _) fun choice _ _ _ => ?_
  simp only
  by_cases empty : choice % 8 = 0
  · rw [if_pos empty, if_pos empty]
    exact notedPure _
  rw [if_neg empty, if_neg empty]
  by_cases header : choice % 8 = 1
  · rw [if_pos header, if_pos header]
    exact notedPure _
  rw [if_neg header, if_neg header]
  refine notedBind (notedRequest _) fun requestedUnits _ _ _ => ?_
  refine notedBind (notedRequest _) fun requestedPayload _ _ _ => ?_
  refine notedBind (notedRequest _) fun framePayload _ _ taken => ?_
  refine notedBind (notedRequest _) fun gain _ _ _ => ?_
  have short : framePayload.length ≤ maxFramePayload := by
    rw [exact _ _ _ _ taken]
    exact Nat.le_of_lt_succ (Nat.mod_lt _ (Nat.succ_pos _))
  obtain ⟨units, behind, cased, inserted, _⟩ := richSequence (requestedUnits.toNat % maxTemporalUnits + 1)
    (decide (choice % 8 = 3 ∨ choice % 8 = 5 ∨ choice % 8 = 7)) short gain
  -- what is built of the answers needs no request and does not fail
  rw [cased]
  refine notedBind (notedPure _) fun made _ _ same => ?_
  cases same
  simp only
  rw [inserted]
  refine notedBind (notedPure _) fun sequence _ _ same => ?_
  cases same
  by_cases unknown : choice % 8 = 6 ∨ choice % 8 = 7
  · rw [if_pos unknown, if_pos unknown]
    refine notedBind (notedRequest _) fun requestedPosition _ _ _ => ?_
    refine notedBind (notedRequest _) fun unknownLen _ _ _ => ?_
    exact notedBind (notedRequest _) fun payload _ _ _ => notedPure _
  · rw [if_neg unknown, if_neg unknown]
    exact notedPure _

theorem obuRoundtripPasses {input : Unstructured} (exact : Exact input) (data : Bytes) :
    obuRoundtrip input data = .ok () ∧ Noted [] (sequenceFromFuzzBytes input (input.new data))
      (sequenceFromFuzzBytes (recorded input) ((recorded input).new data)) := by
  refine ⟨?_, generatorNoted exact _ _⟩
  unfold obuRoundtrip
  split
  · rfl
  rename_i sequence s' generated
  have sendable := generatedSendable exact generated
  obtain ⟨bytes, encoded⟩ := sendableWritten sendable
  obtain ⟨stop, written⟩ := writeParsedSequenceTaken Sink.bufferAcceptsAll [] encoded
  obtain ⟨bytes', encoded', held⟩ := writeParsedSequenceHeld written
  cases encoded.symm.trans encoded'
  have stopped : writeParsedSequence Sink.buffer sequence [] = .ok () bytes := written.trans (congrArg _ held)
  have put (abort : Abort) : expectWritten sequence abort = .ok bytes := by
    unfold expectWritten
    rw [stopped]
  have parsed : expectParsed bytes = .ok sequence := by
    unfold expectParsed
    rw [parseOfWrite (sendableSettled sendable) encoded]
  have same {p : Prop} [Decidable p] (holds : p) (abort : Abort) : assertEq (decide p) abort = .ok () := by
    rw [decide_eq_true holds]
    rfl
  rw [exceptBindOf _ (put _), exceptBindOf _ parsed, exceptBindOf _ (same rfl _), exceptBindOf _ (put _)]
  exact same rfl _

def sliced : Unstructured where
  State := Bytes
  new data := data
  arbitraryU8 data := .ok (data.headD 0) data.tail
  arbitraryI16 data := .ok (Int16.ofNat ((data.headD 0).toNat + 256 * (data.tail.headD 0).toNat)) (data.drop 2)
  bytes n data := if n ≤ data.length then .ok (data.take n) (data.drop n) else .error .notEnoughData data

theorem slicedExact : Exact sliced := by
  intro n s v s' ok
  change (if n ≤ s.length then .ok (s.take n) (s.drop n) else .error .notEnoughData s) =
    (EStateM.Result.ok v s' : EStateM.Result ArbitraryError Bytes Bytes) at ok
  split at ok
  · cases ok
    exact List.length_take_of_le ‹_›
  · cases ok

def sourceBytes : Bytes := [7, 1, 2, 0xaa, 0xbb, 0xff, 0x7f, 3, 2, 0x11, 0x22]

def errorOf {E S α : Type} : EStateM.Result E S α → Option E
  | .ok _ _ => none
  | .error e _ => some e

theorem obuRoundtripPassesSliced :
    (obuRoundtrip sliced sourceBytes = .ok () ∧ Noted [] (sequenceFromFuzzBytes sliced sourceBytes)
      (sequenceFromFuzzBytes (recorded sliced) (sourceBytes, []))) ∧
    errorOf (sequenceFromFuzzBytes sliced (sourceBytes.take 9)) = some .notEnoughData ∧
      Noted [] (sequenceFromFuzzBytes sliced (sourceBytes.take 9))
        (sequenceFromFuzzBytes (recorded sliced) (sourceBytes.take 9, [])) :=
  ⟨obuRoundtripPasses slicedExact _, by decide +kernel, (obuRoundtripPasses slicedExact (sourceBytes.take 9)).2⟩

end Iamf.Wire.Fuzzing
