import Iamf.ObuBoundaries
import Iamf.SequenceEmit

/-! The walk and the parser see the same OBUs, and everything the writers put down can be walked. -/
namespace Iamf.Wire
open Bits BitString TapeCodec ReadTape WriteTape

theorem restAligned {c : BitCursor} (aligned : c.bitOff = 0) : rest c = bytesBits (c.data.drop c.bytePos) := by
  change (bytesBits c.data).drop c.position = _
  rw [BitCursor.position, aligned, Nat.add_zero, bytesBitsDrop]

def SequenceReader.starts (calls : Nat) (s : SequenceReader) : List Nat :=
  (List.range calls).map fun call => (s.after call).bytePosition

theorem startsSucc (calls : Nat) (s : SequenceReader) :
    s.starts (calls + 1) = s.bytePosition :: s.next.2.starts calls := by
  unfold SequenceReader.starts
  rw [List.range_succ_eq_map, List.map_cons, List.map_map]
  rfl

def FailsAt (input : Bytes) (position : Nat) (e : Error) : Prop :=
  ∃ xs : List SequenceObu, (SequenceReader.new input).take (xs.length + 1) = xs.map .ok ++ [.error e] ∧
    ((SequenceReader.new input).after xs.length).bytePosition = position

theorem nextWalks {s s' : SequenceReader} {obu : SequenceObu} (ready : s.Ready)
    (next : s.next = (some (.ok obu), s')) : s'.Ready ∧ s'.reader.data = s.reader.data ∧
      s.bytePosition < s.reader.data.length ∧ obuEnd s.reader.data s.bytePosition = .ok s'.bytePosition := by
  obtain ⟨frame, tail, header, payload, split, source, _, moved, ready'⟩ := (nextOk ready).mp next
  obtain ⟨size, framed⟩ := framedOfSource source
  obtain ⟨length, two, _⟩ := framedLength framed
  have position : s'.bytePosition = s.bytePosition + size := by
    have behind := (advanceAligned (k := size) ready.aligned (by rw [split, List.length_append]; omega)).1
    rw [← length, ← moved] at behind
    exact behind
  rw [restAligned ready.aligned] at split
  have total := congrArg List.length split
  rw [bytesBitsLength, List.length_drop, List.length_append, length] at total
  refine ⟨ready', by rw [moved]; rfl, ?_, obuEndOk.mpr ⟨frame, tail, size, split, framed, position⟩⟩
  change s.reader.bytePos < _
  omega

theorem yieldsWalk {s s' : SequenceReader} {obus : List SequenceObu} (yields : Yields s obus s') (ready : s.Ready) :
    s'.reader.data = s.reader.data ∧ Walks s.reader.data s.bytePosition s'.bytePosition := by
  induction yields with
  | refl => exact ⟨rfl, .refl⟩
  | step next _ ih =>
    obtain ⟨ready', data, inside, first⟩ := nextWalks ready next
    obtain ⟨data', walks⟩ := ih ready'
    rw [data] at data' walks
    exact ⟨data', .step inside first walks⟩

theorem yieldsBoundaries {s s' : SequenceReader} {obus : List SequenceObu} (yields : Yields s obus s')
    (ready : s.Ready) (done : s'.bytePosition = s.reader.data.length) :
    findObuBoundariesFrom s.reader.data s.bytePosition = .ok (s.starts obus.length ++ [s'.bytePosition]) := by
  induction yields with
  | refl => exact boundariesEnd (Nat.le_of_eq done.symm)
  | step next _ ih =>
    obtain ⟨ready', data, inside, first⟩ := nextWalks ready next
    have later := ih ready' (by rw [data]; exact done)
    rw [data] at later
    rw [boundariesStep inside first, later, List.length_cons, startsSucc, next]
    rfl

/-- Two boundaries that may follow each other. -/
def Gap (a b : Nat) : Prop := a < b ∧ 2 ≤ b - a ∧ b - a ≤ 2 ^ 21

theorem yieldsChain {s s' : SequenceReader} {obus : List SequenceObu} (yields : Yields s obus s') (ready : s.Ready) :
    (s.starts obus.length ++ [s'.bytePosition]).IsChain Gap := by
  induction yields with
  | refl => exact .singleton _
  | @step s s1 s2 obu obus next tail ih =>
    obtain ⟨ready', data, inside, first⟩ := nextWalks ready next
    have chain := ih ready'
    have gap : Gap s.bytePosition s1.bytePosition := by
      have behind := obuEndBehind first
      simp only [entireObuSizeMax] at behind
      exact ⟨by omega, by omega, by omega⟩
    rw [List.length_cons, startsSucc, next]
    cases tail with
    | refl => exact .cons_cons gap chain
    | step next' tail =>
      rw [List.length_cons, startsSucc] at chain ⊢
      exact .cons_cons gap chain

theorem failsOfCollect {s : SequenceReader} {calls : Nat} {e : Error}
    (failed : collectItems (s.take calls) = .error e) :
    ∃ xs s', Yields s xs s' ∧ s'.next = (some (.error e), { s' with finished := true }) := by
  induction calls generalizing s with
  | zero => cases failed
  | succ calls ih =>
    unfold SequenceReader.take at failed
    split at failed
    · cases failed
    rename_i item s' next
    cases item with
    | error e' =>
      cases failed
      exact ⟨[], s, .refl, nextFails next⟩
    | ok obu =>
      cases later : collectItems (s'.take calls) with
      | ok found =>
        rw [collectItems, exceptBindOf _ (show Except.ok obu = .ok obu from rfl), later] at failed
        cases failed
      | error e' =>
        rw [collectItems, exceptBindOf _ (show Except.ok obu = .ok obu from rfl), later] at failed
        cases failed
        obtain ⟨xs, s'', yields, fails⟩ := ih later
        exact ⟨obu :: xs, s'', .step next yields, fails⟩

theorem failsAtOfYields {input : Bytes} {xs : List SequenceObu} {s : SequenceReader} {e : Error}
    (yields : Yields (.new input) xs s) (fails : s.next = (some (.error e), { s with finished := true })) :
    FailsAt input s.bytePosition e := by
  refine ⟨xs, ?_, congrArg SequenceReader.bytePosition (afterYields yields 0)⟩
  rw [takeYields yields 1, SequenceReader.take, fails]
  rfl

theorem parseSequenceError {input : Bytes} {e : Error} (failed : parseSequence input = .error e) :
    ∃ xs s, Yields (.new input) xs s ∧ s.next = (some (.error e), { s with finished := true }) ∧
      FailsAt input s.bytePosition e := by
  unfold parseSequence at failed
  cases collected : collectItems ((SequenceReader.new input).take (input.length + 1)) with
  | ok obus => rw [exceptBindOf _ collected] at failed; cases failed
  | error e' =>
    rw [collected] at failed
    cases failed
    obtain ⟨xs, s, yields, fails⟩ := failsOfCollect collected
    exact ⟨xs, s, yields, fails, failsAtOfYields yields fails⟩

theorem parsedBoundaries {input : Bytes} {s : ParsedSequence} (ok : parseSequence input = .ok s) :
    findObuBoundaries input = .ok ((SequenceReader.new input).starts s.obus.length ++ [input.length]) ∧
      ((SequenceReader.new input).starts s.obus.length ++ [input.length]).IsChain Gap := by
  obtain ⟨last, source⟩ := parseSequenceOk.mp ok
  have ready := newReady input
  have yields := sourceYields source (c := BitCursor.new input) rfl (restNew input)
  have stop := (advanceAligned (c := BitCursor.new input) (k := input.length) rfl
    (by change _ ≤ (bytesBits input).length; rw [bytesBitsLength])).1
  have done : SequenceReader.bytePosition ⟨advance (bytesBits input).length (BitCursor.new input), last, false⟩ =
      input.length := by
    rw [bytesBitsLength]
    exact stop.trans (Nat.zero_add _)
  have found := yieldsBoundaries yields ready done
  have chain := yieldsChain yields ready
  rw [done] at found chain
  exact ⟨found, chain⟩

theorem walksToFailure {bytes : Bytes} {start position last : Nat} {e : Error} (walks : Walks bytes start position)
    (fails : WalkFails bytes start last e) : WalkFails bytes position last e := by
  induction walks with
  | refl => exact fails
  | step inside first _ ih =>
    obtain ⟨path, before, failed⟩ := fails
    cases path with
    | refl => cases first.symm.trans failed
    | step _ again path =>
      cases first.symm.trans again
      exact ih ⟨path, before, failed⟩

theorem walkerAgrees (input : Bytes) :
    (∀ s, parseSequence input = .ok s →
      findObuBoundaries input = .ok ((SequenceReader.new input).starts s.obus.length ++ [input.length]) ∧
      ((SequenceReader.new input).starts s.obus.length ++ [input.length]).IsChain Gap) ∧
    (∀ e boundaries, parseSequence input = .error e → findObuBoundaries input = .ok boundaries →
      ∃ p ∈ boundaries, FailsAt input p e) ∧
    (∀ e, findObuBoundaries input = .error e →
      ∃ q e' p, WalkFails input 0 q e ∧ parseSequence input = .error e' ∧ FailsAt input p e' ∧ p ≤ q) := by
  have ready := newReady input
  refine ⟨fun s ok => parsedBoundaries ok, fun e boundaries failed found => ?_, fun e failed => ?_⟩
  · obtain ⟨xs, s, yields, _, at'⟩ := parseSequenceError failed
    exact ⟨_, walksMem (yieldsWalk yields ready).2 found, at'⟩
  · obtain ⟨q, fails⟩ := boundariesFail.mp failed
    cases parsed : parseSequence input with
    | ok s => cases failed.symm.trans (parsedBoundaries parsed).1
    | error e' =>
      obtain ⟨xs, s, yields, _, at'⟩ := parseSequenceError parsed
      have onward := walksToFailure (yieldsWalk yields ready).2 fails
      exact ⟨q, e', _, fails, rfl, at', walksLe onward.walks⟩

theorem walkerAgreesDelimiter :
    findObuBoundaries [0x20, 0] = .ok ((SequenceReader.new [0x20, 0]).starts 1 ++ [2]) ∧
    (∃ p ∈ [0, 2, 5], FailsAt [0x20, 0, 0xf8, 1, 0] p ⟨.unexpectedEndOfInput, .inputOffset 4⟩) ∧
    ∃ q e' p, WalkFails [0x20, 0, 0x20] 0 q (truncated 2) ∧ parseSequence [0x20, 0, 0x20] = .error e' ∧
      FailsAt [0x20, 0, 0x20] p e' ∧ p ≤ q := by
  have parsed : parseSequence [0x20, 0] = .ok ⟨[.temporalDelimiter ⟨.new .temporalDelimiter, ⟨⟩, []⟩]⟩ := by
    decide +kernel
  have failed : parseSequence [0x20, 0, 0xf8, 1, 0] = .error ⟨.unexpectedEndOfInput, .inputOffset 4⟩ := by
    decide +kernel
  have walked : findObuBoundaries [0x20, 0, 0xf8, 1, 0] = .ok [0, 2, 5] := by
    unfold findObuBoundaries
    rw [boundariesStep (by decide) (show obuEnd [0x20, 0, 0xf8, 1, 0] 0 = .ok 2 by decide +kernel),
      boundariesStep (by decide) (show obuEnd [0x20, 0, 0xf8, 1, 0] 2 = .ok 5 by decide +kernel),
      boundariesEnd (by decide)]
    rfl
  have stuck : findObuBoundaries [0x20, 0, 0x20] = .error (truncated 2) :=
    boundariesFail.mpr ⟨2, .step (by decide) (show obuEnd [0x20, 0, 0x20] 0 = .ok 2 by decide +kernel) .refl,
      by decide, by decide +kernel⟩
  exact ⟨((walkerAgrees [0x20, 0]).1 _ parsed).1, (walkerAgrees [0x20, 0, 0xf8, 1, 0]).2.1 _ _ failed walked,
    (walkerAgrees [0x20, 0, 0x20]).2.2 _ stuck⟩

def SequenceObu.header : SequenceObu → ObuHeader
  | .iaSequenceHeader obu => obu.header
  | .codecConfig obu => obu.header
  | .audioElement obu => obu.header
  | .mixPresentation obu => obu.header
  | .parameterBlock obu => obu.header
  | .ungovernedParameterBlock obu => obu.header
  | .temporalDelimiter obu => obu.header
  | .audioFrame obu => obu.header
  | .unknown obu => obu.header

def SequenceObu.encodedPayload (registry : ParamDefinitionRegistry) : SequenceObu → Except Error Bytes
  | .iaSequenceHeader obu => followed (writeIaSequenceHeader obu.payload) obu.trailing
  | .codecConfig obu => followed (writeCodecConfig obu.payload) obu.trailing
  | .audioElement obu => followed (writeAudioElement obu.payload) obu.trailing
  | .mixPresentation obu => followed (writeMixPresentation obu.payload) obu.trailing
  | .parameterBlock obu =>
    match registry.get obu.payload.parameterId with
    | none => .error noGoverningParamDefinition
    | some registered =>
      followed (writeParameterBlock registered.definition registered.context obu.payload) obu.trailing
  | .ungovernedParameterBlock obu => .ok obu.payload
  | .temporalDelimiter obu => followed (writeTemporalDelimiter obu.payload) obu.trailing
  | .audioFrame obu => followed (writeAudioFrame obu.header obu.payload) obu.trailing
  | .unknown obu => .ok obu.payload
where
  followed (write : Writer Unit) (trailing : Bytes) : Except Error Bytes :=
    (finishWriter write).map (· ++ trailing)

def ObuHeader.afterSizeBits (header : ObuHeader) : List Bool :=
  let uleb (v : UInt32) := ulebBits (minimalLen v.toNat) v.toNat
  (match header.typeSpecific with
    | .trimming (some trim) => uleb trim.atEnd ++ uleb trim.atStart
    | _ => []) ++
  (match header.extension with
    | some bytes => uleb (UInt32.ofNat bytes.length) ++ bytesBits bytes
    | none => [])

/-- The frame of an item: its type and flags where they are allowed, its fields and its payload, counted together. -/
structure LegalFrame (registry : ParamDefinitionRegistry) (obu : SequenceObu) (frame : Bytes) : Prop where
  bits : ∃ (obuSize : UInt32) (payload : Bytes), obu.encodedPayload registry = .ok payload ∧
    bytesBits frame = firstByteBits obu.header.obuType.value obu.header.obuRedundantCopy
      obu.header.trimmingStatusFlag obu.header.extensionFlag ++
      (ulebBits (minimalLen obuSize.toNat) obuSize.toNat ++ (obu.header.afterSizeBits ++ bytesBits payload)) ∧
    8 * obuSize.toNat = obu.header.afterSizeBits.length + 8 * payload.length
  fiveBits : obu.header.obuType.value.toNat < 32
  small : frame.length ≤ 2 ^ 21
  trimming : obu.header.trimmingStatusFlag = true →
    5 ≤ obu.header.obuType.value.toNat ∧ obu.header.obuType.value.toNat ≤ 23
  redundant : obu.header.obuRedundantCopy = true →
    obu.header.obuType.value.toNat < 3 ∨ 23 < obu.header.obuType.value.toNat

inductive LegalFrames : ParamDefinitionRegistry → List SequenceObu → List Bytes → Prop where
  | nil {registry} : LegalFrames registry [] []
  | cons {registry obu obus frame frames} (head : LegalFrame registry obu frame)
      (tail : LegalFrames (registry.observeObu obu) obus frames) :
      LegalFrames registry (obu :: obus) (frame :: frames)

theorem emitsTrimming (typeSpecific : TypeSpecific) : Emits (writeTrimming typeSpecific)
    (match typeSpecific with
      | .trimming (some trim) => ulebBits (minimalLen trim.atEnd.toNat) trim.atEnd.toNat ++
          ulebBits (minimalLen trim.atStart.toNat) trim.atStart.toNat
      | _ => []) := by
  cases typeSpecific with
  | reserved => exact emitsPure
  | trimming trim =>
    cases trim with
    | none => exact emitsPure
    | some trim =>
      exact emitsBind (k := fun _ => writeUleb128Minimal trim.atStart) (emitsUleb128 trim.atEnd) (emitsUleb128 trim.atStart)

theorem emitsAfterSize {header : ObuHeader} {fields : Bytes}
    (ok : finishWriter (writeFieldsAfterObuSize header) = .ok fields) :
    bytesBits fields = header.afterSizeBits := by
  unfold writeFieldsAfterObuSize at ok
  unfold ObuHeader.afterSizeBits
  cases extension : header.extension with
  | none =>
    rw [extension] at ok
    exact (finishWriterSource (emitsBind (emitsTrimming header.typeSpecific) emitsPure) ok).symm
  | some bytes =>
    rw [extension] at ok
    unfold writeExtension at ok
    by_cases small : bytes.length ≤ u32Max
    · simp only [decide_eq_true small, ensureTrue] at ok
      have extends' := emitsBind (k := fun _ => writeBytes bytes) (emitsUleb128 (UInt32.ofNat bytes.length))
        (emitsBytes bytes)
      exact (finishWriterSource (emitsBind (emitsTrimming header.typeSpecific) extends') ok).symm
    · simp only [decide_eq_false small] at ok
      obtain ⟨e, failed⟩ := finishWriterRefuses (refusesNext (emitsTrimming header.typeSpecific)
        (k := fun _ => ensure false ⟨.obuTooLarge, .outputOffset 0⟩ >>= fun _ =>
          writeUleb128Minimal (UInt32.ofNat bytes.length) >>= fun _ => writeBytes bytes)
        (refusesBind _ (refusesThrow _)))
      cases failed.symm.trans ok

theorem followedFinished {T : Type} (obu : Obu T) (writePayload : ObuHeader → T → Writer Unit) {bytes : Bytes} :
    finishWriter (writeObuWithHeader obu writePayload) = .ok bytes ↔ ∃ payload,
      SequenceObu.encodedPayload.followed (writePayload obu.header obu.payload) obu.trailing = .ok payload ∧
      finishWriter (writeObu obu.header payload) = .ok bytes := by
  rw [writeObuWithHeaderFinished]
  unfold SequenceObu.encodedPayload.followed
  cases finishWriter (writePayload obu.header obu.payload) with
  | error e => simp [Except.map]
  | ok payload => simp [Except.map]

theorem writtenAsPayload {registry : ParamDefinitionRegistry} {obu : SequenceObu} {bytes : Bytes} :
    finishWriter (writeSequenceObu registry obu) = .ok bytes ↔ ∃ payload, obu.encodedPayload registry = .ok payload ∧
      finishWriter (writeObu obu.header payload) = .ok bytes := by
  cases obu with
  | parameterBlock obu =>
    cases found : registry.get obu.payload.parameterId with
    | none =>
      have failed := finishWriterError (show (throw noGoverningParamDefinition : Writer Unit) .new = .error _ _ from rfl)
      simp only [writeSequenceObu, SequenceObu.encodedPayload, found, failed, reduceCtorEq, false_and, exists_false]
    | some registered =>
      simp only [writeSequenceObu, SequenceObu.encodedPayload, found]
      exact followedFinished obu fun _ => writeParameterBlock registered.definition registered.context
  | ungovernedParameterBlock obu => simp [writeSequenceObu, SequenceObu.encodedPayload, SequenceObu.header]
  | unknown obu => simp [writeSequenceObu, SequenceObu.encodedPayload, SequenceObu.header]
  | iaSequenceHeader obu => exact followedFinished obu fun _ => writeIaSequenceHeader
  | codecConfig obu => exact followedFinished obu fun _ => writeCodecConfig
  | audioElement obu => exact followedFinished obu fun _ => writeAudioElement
  | mixPresentation obu => exact followedFinished obu fun _ => writeMixPresentation
  | temporalDelimiter obu => exact followedFinished obu fun _ => writeTemporalDelimiter
  | audioFrame obu => exact followedFinished obu writeAudioFrame

theorem validateHeaderOk {header : ObuHeader} (ok : validateHeader header = .ok ()) :
    (header.trimmingStatusFlag = true → header.obuType.isAudioFrame = true) ∧
    (header.obuRedundantCopy = true → header.obuType.isRedundantCopyAllowed = true) := by
  have gates : validateHeader.gates header = .ok () := by
    unfold validateHeader at ok
    split at ok
    · split at ok
      · cases ok
      · exact ok
    · exact ok
  unfold validateHeader.gates at gates
  split_ifs at gates with trimmed redundant
  · exact ⟨by simpa using trimmed, by simpa using redundant⟩

theorem writtenFrame {registry : ParamDefinitionRegistry} {obu : SequenceObu} {frame : Bytes}
    (ok : finishWriter (writeSequenceObu registry obu) = .ok frame) :
    LegalFrame registry obu frame ∧ Framed (bytesBits frame) frame.length := by
  obtain ⟨payload, encoded, written⟩ := writtenAsPayload.mp ok
  obtain ⟨fiveBits, obuSize, fields, measured, octets⟩ := writeObuFinished.mp written
  have size := measured.size
  have bounded := measured.bounded
  have range := minimalLenRange obuSize.toNat
  have length := congrArg List.length octets
  simp only [frameBits, firstByteBits, List.length_append, bitsOfLength, ulebBitsLength, bytesBitsLength] at length
  have total : frame.length = 1 + minimalLen obuSize.toNat + obuSize.toNat := by omega
  have after := emitsAfterSize measured.fieldBytes
  have afterLength := congrArg List.length after
  rw [bytesBitsLength] at afterLength
  simp only [entireObuSizeMax] at bounded
  obtain ⟨trimmed, redundant⟩ := validateHeaderOk measured.valid
  refine ⟨⟨⟨obuSize, payload, encoded, ?_, by omega⟩, fiveBits, by omega, fun flag => ?_, fun flag => ?_⟩, ?_⟩
  · rw [octets, frameBits, bytesBitsAppend, after]
  · simpa [ObuType.isAudioFrame] using trimmed flag
  · have allowed := redundant flag
    simp only [ObuType.isRedundantCopyAllowed, Bool.not_eq_true', Bool.and_eq_false_iff,
      decide_eq_false_iff_not] at allowed
    omega
  · rw [octets, total, frameBits]
    exact .intro _ _ obuSize (fields ++ payload) (by simp [firstByteBits]) range.1
      (by simp only [maxLeb128Size]; omega) (minimalLenFits obuSize.toNat_lt) measured.bounded
      (by rw [List.length_append, size])

theorem writtenFrames {registry : ParamDefinitionRegistry} {obus : List SequenceObu} {bytes : Bytes}
    (ok : finishWriter (writeSequenceObus registry obus) = .ok bytes) :
    ∃ frames : List Bytes, bytes = frames.flatten ∧ LegalFrames registry obus frames ∧
      ∀ frame ∈ frames, Framed (bytesBits frame) frame.length := by
  induction obus generalizing registry bytes with
  | nil =>
    cases ok
    exact ⟨[], rfl, .nil, by simp⟩
  | cons obu obus ih =>
    obtain ⟨a, b, head, tail, rfl⟩ := writeSequenceObusCons.mp ok
    obtain ⟨frames, rfl, legal, framed⟩ := ih tail
    obtain ⟨first, walkable⟩ := writtenFrame head
    exact ⟨a :: frames, rfl, .cons first legal, List.forall_mem_cons.mpr ⟨walkable, framed⟩⟩

theorem flattenBoundaries {frames : List Bytes} (front : Bytes)
    (framed : ∀ frame ∈ frames, Framed (bytesBits frame) frame.length) :
    findObuBoundariesFrom (front ++ frames.flatten) front.length =
      .ok ((frames.map List.length).scanl (· + ·) front.length) := by
  induction frames generalizing front with
  | nil => exact boundariesEnd (by simp)
  | cons frame frames ih =>
    obtain ⟨head, others⟩ := List.forall_mem_cons.mp framed
    have two := (framedLength head).2.1
    have later := ih (front ++ frame) others
    rw [List.flatten_cons, ← List.append_assoc]
    rw [List.length_append] at later
    have step : obuEnd (front ++ frame ++ frames.flatten) front.length = .ok (front.length + frame.length) := by
      refine obuEndOk.mpr ⟨bytesBits frame, bytesBits frames.flatten, _, ?_, head, rfl⟩
      rw [List.append_assoc, List.drop_left, bytesBitsAppend]
    rw [boundariesStep (by simp only [List.length_append]; omega) step, later, List.map_cons, List.scanl_cons]
    rfl

theorem legalFramesLength {registry : ParamDefinitionRegistry} {obus : List SequenceObu} {frames : List Bytes}
    (legal : LegalFrames registry obus frames) : frames.length = obus.length := by
  induction legal with
  | nil => rfl
  | cons _ _ ih => rw [List.length_cons, List.length_cons, ih]

theorem writtenFramingLegal {sink : Sink} {start stop : sink.State} {s : ParsedSequence}
    (written : writeParsedSequence sink s start = .ok () stop) : ∃ frames : List Bytes,
      sink.held stop = sink.held start ++ frames.flatten ∧ frames.length = s.obus.length ∧
      findObuBoundaries frames.flatten = .ok ((frames.map List.length).scanl (· + ·) 0) ∧
      LegalFrames .new s.obus frames := by
  obtain ⟨bytes, encoded, held⟩ := writeParsedSequenceHeld written
  obtain ⟨frames, rfl, legal, framed⟩ := writtenFrames encoded
  exact ⟨frames, held, legalFramesLength legal, flattenBoundaries [] framed, legal⟩

theorem writtenFramingLegalTrimmed : ∃ stop, writeParsedSequence Sink.buffer
      ⟨[.temporalDelimiter ⟨{ ObuHeader.new .temporalDelimiter with extension := some [7] }, ⟨⟩, []⟩,
        .audioFrame ⟨(ObuHeader.new (.audioFrameId 3)).withTypeSpecific (.trimming (some ⟨0, 200⟩)), ⟨3, [1, 2]⟩, []⟩]⟩
      [] = .ok () stop ∧
    ∃ frames : List Bytes, Sink.buffer.held stop = Sink.buffer.held [] ++ frames.flatten ∧ frames.length = 2 ∧
      findObuBoundaries frames.flatten = .ok ((frames.map List.length).scanl (· + ·) 0) := by
  have encoded : finishWriter (writeSequenceObus .new
      [.temporalDelimiter ⟨{ ObuHeader.new .temporalDelimiter with extension := some [7] }, ⟨⟩, []⟩,
        .audioFrame ⟨(ObuHeader.new (.audioFrameId 3)).withTypeSpecific (.trimming (some ⟨0, 200⟩)), ⟨3, [1, 2]⟩, []⟩]) =
      .ok [0x21, 2, 1, 7, 0x4a, 5, 0, 0xc8, 1, 1, 2] := by decide +kernel
  obtain ⟨stop, ok⟩ := writeParsedSequenceTaken Sink.bufferAcceptsAll [] encoded
  obtain ⟨frames, held, count, walked, _⟩ := writtenFramingLegal ok
  exact ⟨stop, ok, frames, held, count, walked⟩

end Iamf.Wire
