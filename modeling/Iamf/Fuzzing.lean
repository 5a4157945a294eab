import Iamf.SendableObus

/-! Sequences that a fuzzer chooses, and the target that writes each of them, reads it back and
writes it again. Where the choices come from is not part of the repository. -/
namespace Iamf.Wire.Fuzzing
open Bits BitString TapeCodec

inductive ArbitraryError where
  | emptyChoose
  | notEnoughData
  | incorrectFormat
  deriving DecidableEq, Repr

/-- The operations of `arbitrary::Unstructured` that the generator calls. -/
structure Unstructured where
  State : Type
  new : Bytes → State
  arbitraryU8 : EStateM ArbitraryError State UInt8
  arbitraryI16 : EStateM ArbitraryError State Int16
  bytes : Nat → EStateM ArbitraryError State Bytes

def maxFramePayload : Nat := 32
def maxTemporalUnits : Nat := 3

def incorrectFormat {T : Type} : Except Error T → Except ArbitraryError T
  | .ok v => .ok v
  | .error _ => .error .incorrectFormat

def definitionBytes (definition : ParamDefinition) : Except ArbitraryError Bytes :=
  incorrectFormat (finishWriter (writeParamDefinition definition))

def block (parameterId : UInt32) (data : ParameterData) : ParameterBlock :=
  ⟨parameterId, some ⟨1, 1⟩, [⟨none, data⟩]⟩

def rawSubblock (bytes : Bytes) : ParameterSubblock := ⟨none, .raw bytes⟩

def saturatingI16 (n : Int) : Int16 := Int16.ofInt (max (-32768) (min 32767 n))

def richBlocks (gain : Int16) : List ParameterBlock :=
  let above := saturatingI16 (gain.toInt + 1)
  let below := saturatingI16 (gain.toInt - 1)
  [block 10 (.demixing ⟨7, 0x1f⟩),
    block 11 (.reconGain ⟨[some ⟨0x0801, ⟨[1, 0, 0, 0, 0, 0, 0, 0, 0, 0, 0, 0xfe], rfl⟩⟩]⟩),
    ⟨13, some ⟨3, 1⟩, [⟨none, .mixGain (.step gain)⟩, ⟨none, .mixGain (.linear gain above)⟩,
      ⟨none, .mixGain (.bezier gain above below 0x80)⟩]⟩,
    block 14 (.mixGain (.step gain))]

def richUnit (index : Nat) (delimiters : Bool) (framePayload : Bytes) (gain : Int16) : TemporalUnit :=
  let blocks := (richBlocks gain).map (Obu.new (.new .parameterBlock))
  ⟨if delimiters then some ⟨⟩ else none,
    if index = 0 then blocks.modifyHead fun first => { first with trailing := [0xde, 0xad] } else blocks,
    [AudioFrame.intoObu ⟨0, framePayload⟩ none, AudioFrame.intoObu ⟨18, framePayload.reverse⟩ none]⟩

def richElement (rawDefinition : Bytes) : AudioElement where
  audioElementId := 20
  reserved := 0x1b
  audioElementType := .channelBased ⟨0x1d, [⟨.stereo, some ⟨0x2a, 0x03, -257⟩, true, 0x03, 2, 0⟩]⟩
  codecConfigId := 7
  audioSubstreamIds := [0, 18]
  params := [.demixing { ParamDefinition.mode1 10 48000 with reserved := 0x55 } 5 0x1b 10 0x0d,
    .reconGain { ParamDefinition.mode1 11 48000 with reserved := 0x33 },
    .extension 7 rawDefinition]
  trailing := [0xa1, 0xb2]

def richCodec : CodecConfig := { CodecConfig.lpcm 7 8 ⟨.reserved 0x7f, 16, 48000⟩ with trailing := [0xc3, 0xd4] }

def richPresentation : MixPresentation where
  mixPresentationId := 30
  annotationsLanguage := [[0x65, 0x6e]]
  localizedPresentationAnnotations := [[0x66, 0x75, 0x7a, 0x7a]]
  subMixes := [⟨[⟨20, [[0x65, 0x6c, 0x65, 0x6d, 0x65, 0x6e, 0x74]], ⟨.reserved 3, 0x15, [0xe1, 0xe2]⟩,
      ⟨{ ParamDefinition.mode1 13 48000 with reserved := 0x2d }, -32⟩⟩],
    ⟨{ ParamDefinition.mode1 14 48000 with reserved := 0x35 }, 64⟩,
    [⟨.soundSystem .a0_2_0, 0x03, ⟨-6144, -1536, some (-1280), none, some ⟨0x84, [0xfa, 0xce]⟩⟩⟩]⟩]
  trailing := [0x71, 0x72]

def richCase (unitCount : Nat) (delimiters : Bool) (framePayload : Bytes) (gain : Int16) :
    Except ArbitraryError (DescriptorSet × List TemporalUnit) := do
  let rawDefinition ← definitionBytes { ParamDefinition.mode1 12 48000 with reserved := 0x45 }
  .ok (⟨.new 0 0, [richCodec], [richElement rawDefinition], [richPresentation]⟩,
    (List.range unitCount).map fun index => richUnit index delimiters framePayload gain)

def rawBlock (framePayload : Bytes) : ParameterBlock :=
  let split := min framePayload.length (maxFramePayload / 2)
  ⟨12, some ⟨2, 1⟩, [rawSubblock (framePayload.take split), rawSubblock (framePayload.drop split)]⟩

def ungovernedRawBlockPayload (framePayload : Bytes) : Except ArbitraryError Bytes :=
  incorrectFormat (finishWriter (writeParameterBlock (.mode1 12 48000) (.reserved 7) (rawBlock framePayload)))

def followedBy (ungoverned obu : SequenceObu) : List SequenceObu :=
  match obu with
  | .parameterBlock block => if block.payload.parameterId = 11 then [obu, ungoverned] else [obu]
  | _ => [obu]

def insertUngovernedRawBlocks (sequence : ParsedSequence) (framePayload : Bytes) :
    Except ArbitraryError ParsedSequence := do
  let payload ← ungovernedRawBlockPayload framePayload
  .ok ⟨sequence.obus.flatMap (followedBy (.ungovernedParameterBlock ⟨.new .parameterBlock, payload⟩))⟩

def insertRedundantDescriptor : List SequenceObu → List SequenceObu
  | [] => []
  | .audioElement obu :: obus =>
    .audioElement obu ::
      .audioElement { obu with header := { ObuHeader.new .audioElement with obuRedundantCopy := true } } :: obus
  | obu :: obus => obu :: insertRedundantDescriptor obus

def unknownObu (shape : UInt8) (payload : Bytes) : SequenceObu :=
  .unknown ⟨{ ObuHeader.new (.reserved 27) with extension := some [0x91, shape, 0xfe] }, payload⟩

def sequenceFromFuzzBytes (input : Unstructured) : EStateM ArbitraryError input.State ParsedSequence := do
  let choice ← input.arbitraryU8
  let shape := choice % 8
  if shape = 0 then pure ⟨[]⟩
  else if shape = 1 then pure (.fromParts ⟨.new 0 0, [], [], []⟩ [])
  else
    let requestedUnits ← input.arbitraryU8
    let unitCount := requestedUnits.toNat % maxTemporalUnits + 1
    let requestedPayload ← input.arbitraryU8
    let framePayload ← input.bytes (requestedPayload.toNat % (maxFramePayload + 1))
    let gain ← input.arbitraryI16
    let delimiters := shape = 3 ∨ shape = 5 ∨ shape = 7
    let (descriptors, units) ← orThrow (richCase unitCount delimiters framePayload gain)
    let sequence ← orThrow (insertUngovernedRawBlocks (.fromParts descriptors units) framePayload)
    let obus := if shape = 4 ∨ shape = 7 then insertRedundantDescriptor sequence.obus else sequence.obus
    if shape = 6 ∨ shape = 7 then
      let requestedPosition ← input.arbitraryU8
      let unknownLen ← input.arbitraryU8
      let payload ← input.bytes (unknownLen.toNat % 9)
      pure ⟨obus.insertIdx (requestedPosition.toNat % (obus.length + 1)) (unknownObu shape payload)⟩
    else pure ⟨obus⟩

/-- Where a run of the target can abort. -/
inductive Abort where
  | generatedNotWriterValid
  | writtenNotParsed
  | parsedDiffers
  | parsedNotWriterValid
  | rewrittenDiffers
  deriving DecidableEq, Repr

def expectWritten (sequence : ParsedSequence) (abort : Abort) : Except Abort Bytes :=
  match writeParsedSequence Sink.buffer sequence [] with
  | .ok () bytes => .ok bytes
  | .error _ _ => .error abort

def expectParsed (bytes : Bytes) : Except Abort ParsedSequence :=
  match parseSequence bytes with
  | .ok sequence => .ok sequence
  | .error _ => .error .writtenNotParsed

def assertEq (same : Bool) (abort : Abort) : Except Abort Unit := if same then .ok () else .error abort

def obuRoundtrip (input : Unstructured) (data : Bytes) : Except Abort Unit :=
  match sequenceFromFuzzBytes input (input.new data) with
  | .error _ _ => .ok ()
  | .ok sequence _ => do
    let bytes ← expectWritten sequence .generatedNotWriterValid
    let parsed ← expectParsed bytes
    assertEq (parsed = sequence) .parsedDiffers
    let rewritten ← expectWritten parsed .parsedNotWriterValid
    assertEq (rewritten = bytes) .rewrittenDiffers

end Iamf.Wire.Fuzzing
