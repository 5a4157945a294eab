import Iamf.SequenceEmit

/-! What is read can be written and what is written can be read: OBU by OBU under the same
definitions, and from there for whole sequences. -/
namespace Iamf.Wire
open Bits BitString TapeCodec ReadTape WriteTape

/-- OBUs that the reader gives back as they are: the header is of its type and normal, and the
payload owns no bytes that the reader would give to the OBU. -/
inductive SequenceObu.Settled (registry : ParamDefinitionRegistry) : SequenceObu → Prop where
  | iaSequenceHeader {header v trailing} (normal : Normal header) (type : header.obuType = .iaSequenceHeader)
      (own : v.trailing = []) : Settled registry (.iaSequenceHeader ⟨header, v, trailing⟩)
  | codecConfig {header v trailing} (normal : Normal header) (type : header.obuType = .codecConfig)
      (settled : v.Settled trailing) : Settled registry (.codecConfig ⟨header, v, trailing⟩)
  | audioElement {header v trailing} (normal : Normal header) (type : header.obuType = .audioElement)
      (settled : v.Settled trailing) : Settled registry (.audioElement ⟨header, v, trailing⟩)
  | mixPresentation {header v trailing} (normal : Normal header) (type : header.obuType = .mixPresentation)
      (settled : v.Settled) : Settled registry (.mixPresentation ⟨header, v, trailing⟩)
  | parameterBlock {header v trailing} (normal : Normal header) (type : header.obuType = .parameterBlock)
      (plain : v.Plain) : Settled registry (.parameterBlock ⟨header, v, trailing⟩)
  | ungovernedParameterBlock {header payload id rest} (normal : Normal header)
      (type : header.obuType = .parameterBlock) (inspected : parsePayload readUleb128 payload = .ok (id, rest))
      (ungoverned : (registry.get id).isSome = false) :
      Settled registry (.ungovernedParameterBlock ⟨header, payload⟩)
  | temporalDelimiter {header trailing} (normal : Normal header) (type : header.obuType = .temporalDelimiter) :
      Settled registry (.temporalDelimiter ⟨header, ⟨⟩, trailing⟩)
  | audioFrame {header v} (normal : Normal header)
      (type : header.obuType = .audioFrame ∨ ∃ id, header.obuType = .audioFrameId id) :
      Settled registry (.audioFrame ⟨header, v, []⟩)
  | unknown {header payload raw} (normal : Normal header) (type : header.obuType = .reserved raw) :
      Settled registry (.unknown ⟨header, payload⟩)

theorem inspectedOfRead {registry : ParamDefinitionRegistry} {payload trailing : Bytes} {v : ParameterBlock}
    (ok : parsePayload (readParameterBlock registry) payload = .ok (v, trailing)) :
    ∃ id rest, parsePayload readUleb128 payload = .ok (id, rest) ∧ (registry.get id).isSome = true := by
  obtain ⟨behind, parsed, _, _⟩ := parsePayloadSource ok
  unfold readParameterBlock at parsed
  rw [bindOf _ (bytePositionOk _)] at parsed
  obtain ⟨id, c1, ahead, parsed⟩ := bindOk parsed
  obtain ⟨registered, c2, found, _⟩ := bindOk parsed
  obtain ⟨known, _⟩ := orThrowOk found
  have governed : (registry.get id).isSome = true := by
    cases entry : registry.get id with
    | none => rw [entry] at known; cases known
    | some entry => rfl
  unfold peek at ahead
  split at ahead
  · rename_i value c3 read
    cases ahead
    obtain ⟨bs, tail, split, moved, n, _, _, _, bits, _⟩ := consumesUlebBits _ _ _ read
    have whole : rest (BitCursor.new payload) = bytesBits payload := rfl
    have size : bs.length = 8 * n := by rw [bits, ulebBitsLength]
    have inside : 8 * n ≤ (rest (BitCursor.new payload)).length := by rw [split, ← size]; simp
    rw [size] at moved
    refine ⟨id, payload.drop n, parsePayloadOf read ?_ ?_, governed⟩
    · rw [moved]
      exact (advanceAligned rfl inside).2
    · rw [moved, restAdvance _ _ inside, whole, bytesBitsDrop]
  · cases ahead

theorem frameOfWrite {header : ObuHeader} {payload bytes : Bytes} (normal : Normal header)
    (ok : finishWriter (writeObu header payload) = .ok bytes) : FrameSource (bytesBits bytes) header payload := by
  obtain ⟨fiveBits, obuSize, fields, measured, octets⟩ := writeObuFinished.mp ok
  rw [octets]
  exact frameSourceOfWrite normal fiveBits measured

theorem frameOfWriteWith {T : Type} {obu : Obu T} (writePayload : ObuHeader → T → Writer Unit) {bytes : Bytes}
    (ok : finishWriter (writeObuWithHeader obu writePayload) = .ok bytes) (normal : Normal obu.header) :
    ∃ payload, finishWriter (writePayload obu.header obu.payload) = .ok payload ∧
      FrameSource (bytesBits bytes) obu.header (payload ++ obu.trailing) := by
  obtain ⟨payload, encoded, framed⟩ := writeObuWithHeaderFinished.mp ok
  exact ⟨payload, encoded, frameOfWrite normal framed⟩

theorem decodesOfWrite {registry : ParamDefinitionRegistry} {obu : SequenceObu} {bytes : Bytes}
    (settled : obu.Settled registry) (ok : finishWriter (writeSequenceObu registry obu) = .ok bytes) :
    ∃ header payload, FrameSource (bytesBits bytes) header payload ∧
      Decodes registry header payload obu (registry.observeObu obu) := by
  cases settled with
  | iaSequenceHeader normal type own =>
    obtain ⟨payload, encoded, source⟩ := frameOfWriteWith (fun _ => writeIaSequenceHeader) ok normal
    exact ⟨_, _, source, .iaSequenceHeader type (sequenceHeaderWritesBack _ _ _ own encoded)⟩
  | codecConfig normal type settled =>
    obtain ⟨payload, encoded, source⟩ := frameOfWriteWith (fun _ => writeCodecConfig) ok normal
    exact ⟨_, _, source, .codecConfig type (codecConfigWritesBack _ _ _ settled encoded)⟩
  | audioElement normal type settled =>
    obtain ⟨payload, encoded, source⟩ := frameOfWriteWith (fun _ => writeAudioElement) ok normal
    exact ⟨_, _, source, .audioElement type (audioElementWritesBack _ _ _ settled encoded)⟩
  | mixPresentation normal type settled =>
    obtain ⟨payload, encoded, source⟩ := frameOfWriteWith (fun _ => writeMixPresentation) ok normal
    exact ⟨_, _, source, .mixPresentation type (mixPresentationWritesBack _ _ _ settled encoded)⟩
  | @parameterBlock header v trailing normal type plain =>
    unfold writeSequenceObu at ok
    simp only at ok
    split at ok
    · rename_i missing
      cases ok
    · rename_i entry found
      obtain ⟨payload, encoded, source⟩ :=
        frameOfWriteWith (fun _ => writeParameterBlock entry.definition entry.context) ok normal
      have parsed := parameterBlockWritesBack _ _ trailing ⟨found, plain⟩ encoded
      obtain ⟨id, rest, inspected, governed⟩ := inspectedOfRead parsed
      exact ⟨_, _, source, .parameterBlock type inspected governed parsed⟩
  | ungovernedParameterBlock normal type inspected ungoverned =>
    exact ⟨_, _, frameOfWrite normal ok, .ungovernedParameterBlock type inspected ungoverned⟩
  | temporalDelimiter normal type =>
    obtain ⟨payload, encoded, source⟩ := frameOfWriteWith (fun _ => writeTemporalDelimiter) ok normal
    cases encoded
    exact ⟨_, _, source, .temporalDelimiter type⟩
  | audioFrame normal type =>
    obtain ⟨payload, encoded, source⟩ := frameOfWriteWith writeAudioFrame ok normal
    exact ⟨_, _, source, .audioFrame type (audioFrameWritesBack _ _ _ [] rfl encoded)⟩
  | unknown normal type => exact ⟨_, _, frameOfWrite normal ok, .unknown type⟩

inductive SettledObus : ParamDefinitionRegistry → List SequenceObu → Prop where
  | nil {registry} : SettledObus registry []
  | cons {registry obu obus} (settled : obu.Settled registry) (others : SettledObus (registry.observeObu obu) obus) :
      SettledObus registry (obu :: obus)

theorem sourceOfWrite {registry : ParamDefinitionRegistry} {obus : List SequenceObu} {bytes : Bytes}
    (settled : SettledObus registry obus) (ok : finishWriter (writeSequenceObus registry obus) = .ok bytes) :
    ∃ last, SequenceSource registry (bytesBits bytes) obus last := by
  induction settled generalizing bytes with
  | nil =>
    cases ok
    exact ⟨_, .nil⟩
  | cons settled _ ih =>
    obtain ⟨a, b, head, tail, rfl⟩ := writeSequenceObusCons.mp ok
    obtain ⟨header, payload, source, decodes⟩ := decodesOfWrite settled head
    obtain ⟨last, others⟩ := ih tail
    rw [bytesBitsAppend]
    exact ⟨last, .cons source decodes others⟩

theorem parseOfWrite {obus : List SequenceObu} {bytes : Bytes} (settled : SettledObus .new obus)
    (ok : finishWriter (writeSequenceObus .new obus) = .ok bytes) : parseSequence bytes = .ok ⟨obus⟩ :=
  parseSequenceOk.mpr (sourceOfWrite settled ok)

def WriterGate (kind : ErrorKind) : Prop :=
  kind = .trimmingFlagNotAllowed ∨ kind = .redundantCopyNotAllowed ∨ kind = .additionalProfileBelowPrimary

def Reemits (canonical : Prop) (g : Writer Unit) (frame : List Bool) : Prop :=
  (∃ bytes, finishWriter g = .ok bytes ∧ 8 * bytes.length ≤ frame.length ∧ (canonical → bytesBits bytes = frame)) ∨
    ∃ e, finishWriter g = .error e ∧ WriterGate e.kind

section

variable [UlebForm]

theorem reemitsFrame {frame : List Bool} {header : ObuHeader} {payload payload' : Bytes}
    (source : FrameSource frame header payload) (shorter : payload'.length ≤ payload.length)
    (same : Canonical → payload' = payload) : Reemits Canonical (writeObu header payload') frame := by
  obtain ⟨normal, fiveBits, obuSize, fields, measured, short, canon⟩ := measuredOfSource source shorter
  rcases validateHeaderNormal normal with valid | ⟨e, refused, kind⟩
  · left
    obtain ⟨bytes, octets⟩ := frameOctetsOfWrite header obuSize fields payload'
    refine ⟨bytes, writeObuFinished.mpr ⟨fiveBits, obuSize, fields, measured valid, octets.symm⟩, ?_, ?_⟩
    · rw [octets, bytesBitsLength] at short
      exact short
    · intro canonical
      rw [← octets, canon canonical (same canonical)]
  · right
    have failed : measureObu header payload'.length = .error e := by
      unfold measureObu
      rw [refused]
      rfl
    refine ⟨e, finishWriterError (writeObuFails rfl failed), ?_⟩
    exact kind.imp id .inl

theorem reemitsFrameWith {T : Type} {frame : List Bool} {payload : Bytes} (obu : Obu T)
    (writePayload : ObuHeader → T → Writer Unit) (source : FrameSource frame obu.header payload)
    (encoded : ∃ bytes, finishWriter (writePayload obu.header obu.payload) = .ok bytes ∧
      bytes.length + obu.trailing.length ≤ payload.length ∧ (Canonical → bytes ++ obu.trailing = payload)) :
    Reemits Canonical (writeObuWithHeader obu writePayload) frame := by
  obtain ⟨bytes, encoded, short, same⟩ := encoded
  have framed := reemitsFrame source (by rw [List.length_append]; exact short) same
  have opened : writeObuWithHeader obu writePayload = writeObu obu.header (bytes ++ obu.trailing) := by
    unfold writeObuWithHeader
    rw [orThrowOf _ encoded]
  rwa [opened]

theorem settledOfDecodes {registry registry' : ParamDefinitionRegistry} {frame : List Bool} {header : ObuHeader}
    {payload : Bytes} {obu : SequenceObu} (source : FrameSource frame header payload)
    (decodes : Decodes registry header payload obu registry') :
    obu.Settled registry ∧ registry' = registry.observeObu obu := by
  have normal := (measuredOfSource source (Nat.le_refl _)).1
  cases decodes with
  | iaSequenceHeader type parsed =>
    exact ⟨.iaSequenceHeader normal type (sequenceHeaderReadsBack True parsed).1, rfl⟩
  | codecConfig type parsed => exact ⟨.codecConfig normal type (codecConfigReadsBack _ _ _ parsed).1, rfl⟩
  | audioElement type parsed => exact ⟨.audioElement normal type (audioElementReadsBack _ _ _ parsed).1, rfl⟩
  | mixPresentation type parsed => exact ⟨.mixPresentation normal type (mixPresentationReadsBack _ _ _ parsed).1, rfl⟩
  | parameterBlock type inspected governed parsed =>
    obtain ⟨entry, found, plain, _⟩ := parameterBlockReadsBack parsed
    exact ⟨.parameterBlock normal type plain, rfl⟩
  | ungovernedParameterBlock type inspected ungoverned =>
    exact ⟨.ungovernedParameterBlock normal type inspected ungoverned, rfl⟩
  | temporalDelimiter type => exact ⟨.temporalDelimiter normal type, rfl⟩
  | @audioFrame v trailing type parsed =>
    cases (audioFrameReadsBack header _ _ _ parsed).1
    exact ⟨.audioFrame normal type, rfl⟩
  | unknown type => exact ⟨.unknown normal type, rfl⟩

theorem reemitsObu {registry registry' : ParamDefinitionRegistry} {frame : List Bool} {header : ObuHeader}
    {payload : Bytes} {obu : SequenceObu} (source : FrameSource frame header payload)
    (decodes : Decodes registry header payload obu registry') :
    Reemits Canonical (writeSequenceObu registry obu) frame := by
  cases decodes with
  | @iaSequenceHeader v trailing type parsed =>
    rcases (sequenceHeaderReadsBack Canonical parsed).2 with low | encoded
    · right
      have refused : writeSequenceObu registry (.iaSequenceHeader ⟨header, v, trailing⟩) .new =
          .error ⟨.additionalProfileBelowPrimary, .field "additional_profile"⟩ .new := by
        change writeObuWithHeader ⟨header, v, trailing⟩ (fun _ => writeIaSequenceHeader) .new = _
        unfold writeObuWithHeader
        simp only [low]
        rfl
      exact ⟨_, finishWriterError refused, .inr (.inr rfl)⟩
    · exact reemitsFrameWith ⟨header, v, trailing⟩ (fun _ => writeIaSequenceHeader) source encoded
  | @codecConfig v trailing type parsed =>
    exact reemitsFrameWith ⟨header, v, trailing⟩ (fun _ => writeCodecConfig) source
      (codecConfigReadsBack _ _ _ parsed).2
  | @audioElement v trailing type parsed =>
    exact reemitsFrameWith ⟨header, v, trailing⟩ (fun _ => writeAudioElement) source
      (audioElementReadsBack _ _ _ parsed).2
  | @mixPresentation v trailing type parsed =>
    exact reemitsFrameWith ⟨header, v, trailing⟩ (fun _ => writeMixPresentation) source
      (mixPresentationReadsBack _ _ _ parsed).2
  | @parameterBlock id rest v trailing type inspected governed parsed =>
    obtain ⟨entry, found, plain, encoded⟩ := parameterBlockReadsBack parsed
    unfold writeSequenceObu
    simp only [found]
    exact reemitsFrameWith (⟨header, v, trailing⟩)
      (fun _ => writeParameterBlock entry.definition entry.context) source encoded
  | ungovernedParameterBlock type inspected ungoverned => exact reemitsFrame source (Nat.le_refl _) fun _ => rfl
  | temporalDelimiter type =>
    exact reemitsFrameWith ⟨header, (⟨⟩ : TemporalDelimiter), payload⟩ (fun _ => writeTemporalDelimiter)
      source ⟨[], rfl, by simp, fun _ => rfl⟩
  | @audioFrame v trailing type parsed =>
    exact reemitsFrameWith ⟨header, v, trailing⟩ writeAudioFrame source
      (audioFrameReadsBack header _ _ _ parsed).2
  | unknown type => exact reemitsFrame source (Nat.le_refl _) fun _ => rfl

theorem settledOfSource {registry last : ParamDefinitionRegistry} {bits : List Bool} {obus : List SequenceObu}
    (source : SequenceSource registry bits obus last) : SettledObus registry obus := by
  induction source with
  | nil => exact .nil
  | cons source decodes _ ih =>
    obtain ⟨settled, rfl⟩ := settledOfDecodes source decodes
    exact .cons settled ih

theorem reemitsBind {g h : Writer Unit} {frame bits : List Bool} (first : Octets g) (second : Octets h)
    (head : Reemits Canonical g frame) (tail : Reemits Canonical h bits) :
    Reemits Canonical (g >>= fun _ => h) (frame ++ bits) := by
  have failing {e : Error} (failed : finishWriter (g >>= fun _ => h) = .error e) : WriterGate e.kind := by
    rcases finishWriterBindFails first second failed with ⟨e', failed', kind⟩ | ⟨a, e', _, failed', kind⟩
    · rcases head with ⟨bytes, ok, _⟩ | ⟨e1, gated, gate⟩
      · cases ok.symm.trans failed'
      · cases gated.symm.trans failed'
        rwa [← kind]
    · rcases tail with ⟨bytes, ok, _⟩ | ⟨e1, gated, gate⟩
      · cases ok.symm.trans failed'
      · cases gated.symm.trans failed'
        rwa [← kind]
  cases done : finishWriter (g >>= fun _ => h) with
  | error e => exact .inr ⟨e, done, failing done⟩
  | ok bytes =>
    obtain ⟨a, b, ok, ok', rfl⟩ := (finishWriterBind first second).mp done
    rcases head with ⟨a', written, short, same⟩ | ⟨e, gated, _⟩
    · cases written.symm.trans ok
      rcases tail with ⟨b', written', short', same'⟩ | ⟨e, gated, _⟩
      · cases written'.symm.trans ok'
        refine .inl ⟨a ++ b, done, ?_, fun canonical => ?_⟩
        · rw [List.length_append, List.length_append]; omega
        · rw [bytesBitsAppend, same canonical, same' canonical]
      · cases gated.symm.trans ok'
    · cases gated.symm.trans ok

theorem reemitsSource {registry last : ParamDefinitionRegistry} {bits : List Bool} {obus : List SequenceObu}
    (source : SequenceSource registry bits obus last) : Reemits Canonical (writeSequenceObus registry obus) bits := by
  induction source with
  | nil => exact .inl ⟨[], rfl, by simp, fun _ => rfl⟩
  | @cons registry next last frame header payload obu bits obus source decodes others ih =>
    obtain ⟨_, rfl⟩ := settledOfDecodes source decodes
    exact reemitsBind (octetsWriteSequenceObu registry obu) (octetsWriteSequenceObus _ obus)
      (reemitsObu source decodes) ih

end

theorem reemissionStable {sink : Sink} (all : sink.AcceptsAll) (start : sink.State) {b : Bytes} {s : ParsedSequence}
    (parsed : parseSequence b = .ok s) :
    (∃ e stop, writeParsedSequence sink s start = .error e stop ∧ (e.kind = .trimmingFlagNotAllowed ∨
        e.kind = .redundantCopyNotAllowed ∨ e.kind = .additionalProfileBelowPrimary)) ∨
      ∃ stop b', writeParsedSequence sink s start = .ok () stop ∧ sink.held stop = sink.held start ++ b' ∧
        parseSequence b' = .ok s ∧ b'.length ≤ b.length := by
  obtain ⟨last, source⟩ := parseSequenceOk.mp parsed
  rcases reemitsSource source with ⟨bytes, encoded, short, _⟩ | ⟨e, failed, gate⟩
  · obtain ⟨stop, ok⟩ := writeParsedSequenceTaken all start encoded
    obtain ⟨bytes', encoded', held⟩ := writeParsedSequenceHeld ok
    cases encoded.symm.trans encoded'
    rw [bytesBitsLength] at short
    exact .inr ⟨stop, bytes, ok, held, parseOfWrite (settledOfSource source) encoded, by omega⟩
  · exact .inl ⟨e, start, writeParsedSequenceFails sink start failed, gate⟩

theorem reemissionStableDelimiter :
    ∃ stop b', writeParsedSequence Sink.buffer ⟨[.iaSequenceHeader (.new (.new .iaSequenceHeader) (.new 0 1)),
        .temporalDelimiter (.new (.new .temporalDelimiter) ⟨⟩)]⟩ [] = .ok () stop ∧
      Sink.buffer.held stop = Sink.buffer.held [] ++ b' ∧ b'.length ≤ 11 := by
  have parsed : parseSequence [0xf8, 6, 0x69, 0x61, 0x6d, 0x66, 0, 1, 0x20, 0x80, 0] =
      .ok ⟨[.iaSequenceHeader (.new (.new .iaSequenceHeader) (.new 0 1)),
        .temporalDelimiter (.new (.new .temporalDelimiter) ⟨⟩)]⟩ := by decide +kernel
  rcases reemissionStable Sink.bufferAcceptsAll [] parsed with ⟨e, stop, failed, _⟩ | ⟨stop, b', ok, held, _, short⟩
  · obtain ⟨bytes, encoded⟩ : ∃ bytes, finishWriter (writeSequenceObus .new
        [.iaSequenceHeader (.new (.new .iaSequenceHeader) (.new 0 1)),
          .temporalDelimiter (.new (.new .temporalDelimiter) ⟨⟩)]) = .ok bytes :=
      ⟨[0xf8, 6, 0x69, 0x61, 0x6d, 0x66, 0, 1, 0x20, 0], by decide +kernel⟩
    obtain ⟨stop', ok⟩ := writeParsedSequenceTaken Sink.bufferAcceptsAll [] encoded
    cases failed.symm.trans ok
  · exact ⟨stop, b', ok, held, short⟩

/-- No field that the readers decode is in a wider form than it needs: readers that refuse every
wider form read the same. What is kept opaque is not decoded. -/
def InMinimalForm (b : Bytes) : Prop := @parseSequence minimalForms b = parseSequence b

theorem reemissionCanonical {sink : Sink} {start stop : sink.State} {b : Bytes} {s : ParsedSequence}
    (parsed : parseSequence b = .ok s) (minimal : InMinimalForm b)
    (written : writeParsedSequence sink s start = .ok () stop) : sink.held stop = sink.held start ++ b := by
  obtain ⟨last, source⟩ := (@parseSequenceOk minimalForms _ _).mp (minimal.trans parsed)
  obtain ⟨bytes, encoded, held⟩ := writeParsedSequenceHeld written
  rcases @reemitsSource minimalForms _ _ _ _ source with ⟨bytes', encoded', _, same⟩ | ⟨e, failed, _⟩
  · cases encoded'.symm.trans encoded
    rw [held, bytesBitsInjective (same minimalCanonical)]
  · cases failed.symm.trans encoded

theorem reemissionCanonicalOpaque : ∃ stop, writeParsedSequence Sink.buffer
      ⟨[.temporalDelimiter ⟨{ ObuHeader.new .temporalDelimiter with extension := some [7] }, ⟨⟩, [9]⟩,
        .unknown ⟨.new (.reserved 24), [1, 2]⟩, .ungovernedParameterBlock ⟨.new .parameterBlock, [0x85, 0, 3]⟩]⟩
      [] = .ok () stop ∧
    Sink.buffer.held stop = Sink.buffer.held [] ++ [0x21, 3, 1, 7, 9, 0xc0, 2, 1, 2, 0x18, 3, 0x85, 0, 3] := by
  have parsed : parseSequence [0x21, 3, 1, 7, 9, 0xc0, 2, 1, 2, 0x18, 3, 0x85, 0, 3] =
      .ok ⟨[.temporalDelimiter ⟨{ ObuHeader.new .temporalDelimiter with extension := some [7] }, ⟨⟩, [9]⟩,
        .unknown ⟨.new (.reserved 24), [1, 2]⟩,
        .ungovernedParameterBlock ⟨.new .parameterBlock, [0x85, 0, 3]⟩]⟩ := by decide +kernel
  have minimal : InMinimalForm [0x21, 3, 1, 7, 9, 0xc0, 2, 1, 2, 0x18, 3, 0x85, 0, 3] := by
    unfold InMinimalForm
    decide +kernel
  have encoded : finishWriter (writeSequenceObus .new
      [.temporalDelimiter ⟨{ ObuHeader.new .temporalDelimiter with extension := some [7] }, ⟨⟩, [9]⟩,
        .unknown ⟨.new (.reserved 24), [1, 2]⟩, .ungovernedParameterBlock ⟨.new .parameterBlock, [0x85, 0, 3]⟩]) =
      .ok [0x21, 3, 1, 7, 9, 0xc0, 2, 1, 2, 0x18, 3, 0x85, 0, 3] := by decide +kernel
  obtain ⟨stop, written⟩ := writeParsedSequenceTaken Sink.bufferAcceptsAll [] encoded
  exact ⟨stop, written, reemissionCanonical parsed minimal written⟩

end Iamf.Wire
