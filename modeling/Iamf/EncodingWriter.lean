import Iamf.EncoderBuild
import Iamf.SequenceWriterRuns

/-! The writer a built encoder starts. Each unit is checked and lowered before anything of it
reaches the sequence writer, and what the next unit depends on is kept only when both accept it. -/
namespace Iamf.Wire
open Bits BitString TapeCodec

inductive FrameInput where
  | lpcm (payload : Bytes)
  | flac (payload : Bytes)
  | opus (payload : Bytes)
  | aacLc (payload : Bytes)
  deriving DecidableEq, Repr

structure SubmittedParameterBlock where
  parameter : ParameterHandle
  block : ParameterBlock
  deriving DecidableEq

structure TemporalUnitInput where
  frames : List (SubstreamHandle × FrameInput)
  parameterBlocks : List SubmittedParameterBlock
  trimming : Option Trimming
  deriving DecidableEq

structure TemporalProgress where
  parameterIds : Option (List UInt32)
  startTrimOpen : Bool
  endTrimmed : Bool
  startTrimTotal : UInt32
  deriving DecidableEq, Repr

def TemporalProgress.initial : TemporalProgress := ⟨none, true, false, 0⟩

def temporalInput (kind : ErrorKind) (field : String) : Error := ⟨kind, .field field⟩

def framePayload : FrameInput → Bytes
  | .lpcm payload | .flac payload | .opus payload | .aacLc payload => payload

def validateTemporalTrimming (trimming : Option Trimming) (config : CodecConfig) : Except Error Unit :=
  guarded (trimming.all fun trim => (u32CheckedAdd trim.atStart trim.atEnd).any (· ≤ config.numSamplesPerFrame))
    (temporalInput .temporalUnitTrimMismatch "trimming")

-- only a block that carries its own durations is looked at
def validateSubmittedParameterBlock (definition : ParamDefinition) (block : ParameterBlock) : Except Error Unit :=
  match definition.paramDefinitionMode, block.durationFields with
  | true, some fields =>
    guarded (!(fields.duration == 0 || block.subblocks.isEmpty || (fields.constantSubblockDuration == 0 &&
        block.subblocks.any fun subblock => subblock.subblockDuration == some 0)))
      (temporalInput .subblockDurationMismatch "subblock_duration")
  | _, _ => .ok ()

-- the products stay far below the range of the `u64` they are computed in
def validateFrame (config : CodecConfig) (channels : UInt8) (frame : FrameInput) : Except Error Unit :=
  match config.decoderConfig, frame with
  | .lpcm lpcm, .lpcm payload => do
    let bytesPerSample := lpcm.sampleSize.toNat / 8
    guarded (bytesPerSample != 0) (temporalInput .lpcmFrameByteAlignment "frame.payload")
    guarded (payload.length % bytesPerSample == 0) (temporalInput .lpcmFrameByteAlignment "frame.payload")
    guarded (payload.length == config.numSamplesPerFrame.toNat * channels.toNat * bytesPerSample)
      (temporalInput .lpcmFrameSampleCountMismatch "frame.payload")
  | .flac _, .flac _ => .ok ()
  | .opus _, .opus _ => .ok ()
  | .aacLc _, .aacLc _ => .ok ()
  | _, _ => .error (temporalInput .frameCodecMismatch "frame.codec")

def addId (ids : List UInt32) (id : UInt32) : List UInt32 := if ids.contains id then ids else ids ++ [id]

def checkDistinctHandles (seen : List SubstreamHandle) : List SubstreamHandle → Except Error Unit
  | [] => .ok ()
  | handle :: handles => do
    guarded (!seen.contains handle) (temporalInput .duplicateTemporalSubstream "frames")
    checkDistinctHandles (seen ++ [handle]) handles

def checkCoverage (covered : Option (List UInt32)) (submitted : List UInt32) : Except Error (List UInt32) :=
  match covered with
  | some expected => do
    guarded (submitted.length == expected.length && submitted.all expected.contains)
      (temporalInput .parameterSubstreamCoverageMismatch "parameter_blocks")
    .ok expected
  | none => .ok submitted

namespace Encoder

def frameSize (encoder : Encoder) : Option UInt32 := encoder.descriptors.codecConfigs.head?.map (·.numSamplesPerFrame)

theorem frameSizeOf {encoder : Encoder} {config : CodecConfig} (configs : encoder.descriptors.codecConfigs = [config]) :
    encoder.frameSize = some config.numSamplesPerFrame := by
  unfold frameSize
  rw [configs]
  rfl

def opusPreSkip (encoder : Encoder) : Option UInt16 :=
  (encoder.descriptors.codecConfigs.head?.bind (·.opusConfig)).map (·.preSkip)

def declaredSubstreams (encoder : Encoder) : List UInt32 :=
  (encoder.descriptors.audioElements.flatMap (·.audioSubstreamIds)).foldl addId []

def substreamId (encoder : Encoder) (handle : SubstreamHandle) : Except Error UInt32 := do
  let unknown := temporalInput .unknownTemporalSubstreamHandle "substream_handle"
  guarded (handle.generation == encoder.generation) unknown
  let id ← u32TryFrom handle.index unknown
  guarded (encoder.declaredSubstreams.contains id) unknown
  .ok id

def parameterId (encoder : Encoder) (handle : ParameterHandle) (definitions : ParamDefinitionRegistry) :
    Except Error UInt32 := do
  let unknown := temporalInput .unknownTemporalParameterHandle "parameter_handle"
  guarded (handle.generation == encoder.generation) unknown
  let id ← u32TryFrom handle.index unknown
  guarded (definitions.get id).isSome unknown
  .ok id

def firstUse (encoder : Encoder) (id : UInt32) : Option (AudioElement × Nat) :=
  encoder.descriptors.audioElements.findSome? fun element =>
    (element.audioSubstreamIds.findIdx? (· == id)).map fun position => (element, position)

def substreamPlan (encoder : Encoder) (id : UInt32) : Except Error (CodecConfig × UInt8) :=
  match encoder.firstUse id with
  | none => .error (temporalInput .unknownTemporalSubstreamHandle "substream_handle")
  | some (element, position) =>
    match encoder.descriptors.codecConfigById element.codecConfigId with
    | none => .error (temporalInput .frameCodecMismatch "codec_config")
    | some config => .ok (config, substreamChannels element position)

def lowerFrame (encoder : Encoder) (trimming : Option Trimming) (entry : (SubstreamHandle × FrameInput) × UInt32) :
    Except Error (Obu AudioFrame) := do
  let id ← encoder.substreamId entry.1.1
  guarded (id == entry.2) (temporalInput .temporalSubstreamOrderMismatch "frames")
  let (config, channels) ← encoder.substreamPlan id
  validateTemporalTrimming trimming config
  validateFrame config channels entry.1.2
  .ok (AudioFrame.intoObu ⟨id, framePayload entry.1.2⟩ trimming)

-- while the run of start trims is open, their total may not pass the pre-skip, and it must have reached it when the
-- run ends
def addStartTrim (encoder : Encoder) (progress : TemporalProgress) (atStart : UInt32) (startTrimOpen : Bool) :
    Except Error UInt32 :=
  match encoder.opusPreSkip, progress.startTrimOpen with
  | some preSkip, true =>
    match u32CheckedAdd progress.startTrimTotal atStart with
    | none => .error (temporalInput .opusStartTrimExceedsPreSkip "trimming")
    | some total => do
      guarded (total ≤ preSkip.toUInt32) (temporalInput .opusStartTrimExceedsPreSkip "trimming")
      guarded (startTrimOpen || total == preSkip.toUInt32) (temporalInput .opusStartTrimShortOfPreSkip "trimming")
      .ok total
  | _, _ => .ok progress.startTrimTotal

def advanceTrimming (encoder : Encoder) (progress : TemporalProgress) (trimming : Option Trimming) :
    Except Error TemporalProgress := do
  let atStart := trimming.elim 0 (·.atStart)
  let atEnd := trimming.elim 0 (·.atEnd)
  guarded (!progress.endTrimmed) (temporalInput .temporalUnitAfterEndTrim "trimming")
  guarded (!(atStart > 0 && !progress.startTrimOpen)) (temporalInput .startTrimAfterUntrimmedAudio "trimming")
  let startTrimOpen := progress.startTrimOpen && some atStart == encoder.frameSize
  let startTrimTotal ← encoder.addStartTrim progress atStart startTrimOpen
  .ok { progress with startTrimOpen := startTrimOpen, endTrimmed := atEnd > 0, startTrimTotal := startTrimTotal }

def lowerParameterBlock (encoder : Encoder) (definitions : ParamDefinitionRegistry) (submittedIds : List UInt32)
    (submitted : SubmittedParameterBlock) : Except Error UInt32 := do
  let parameterId ← encoder.parameterId submitted.parameter definitions
  guarded (submitted.block.parameterId == parameterId) (temporalInput .parameterIdMismatch "parameter_id")
  guarded (!submittedIds.contains parameterId) (temporalInput .duplicateTemporalParameterBlock "parameter_blocks")
  let governing ← (definitions.get parameterId).elim
    (.error (temporalInput .unknownTemporalParameterHandle "parameter_handle")) .ok
  validateSubmittedParameterBlock governing.definition submitted.block
  let _ ← runWriter (writeParameterBlock governing.definition governing.context submitted.block)
  guarded (!(governing.definition.paramDefinitionMode &&
      submitted.block.durationFields.any fun fields => some fields.duration != encoder.frameSize))
    (temporalInput .parameterBlockDurationMismatch "parameter_block.duration")
  .ok parameterId

def lowerParameterBlocks (encoder : Encoder) (definitions : ParamDefinitionRegistry) (submittedIds : List UInt32) :
    List SubmittedParameterBlock → Except Error (List (Obu ParameterBlock) × List UInt32)
  | [] => .ok ([], submittedIds)
  | submitted :: others => do
    let parameterId ← encoder.lowerParameterBlock definitions submittedIds submitted
    let (blocks, ids) ← encoder.lowerParameterBlocks definitions (submittedIds ++ [parameterId]) others
    .ok (.new (.new .parameterBlock) submitted.block :: blocks, ids)

def preflight (encoder : Encoder) (progress : TemporalProgress) (input : TemporalUnitInput) :
    Except Error (TemporalUnit × TemporalProgress) := do
  checkDistinctHandles [] (input.frames.map (·.1))
  let expected := encoder.declaredSubstreams
  guarded (input.frames.length == expected.length) (temporalInput .missingTemporalSubstream "frames")
  let frames ← (input.frames.zip expected).mapM (encoder.lowerFrame input.trimming)
  let next ← encoder.advanceTrimming progress input.trimming
  let definitions := ParamDefinitionRegistry.fromDescriptors encoder.descriptors
  let (parameterBlocks, submittedIds) ← encoder.lowerParameterBlocks definitions [] input.parameterBlocks
  let parameterIds ← checkCoverage progress.parameterIds submittedIds
  .ok (⟨none, parameterBlocks, frames⟩, { next with parameterIds := some parameterIds })

end Encoder

structure EncodingWriter (W : Sink) where
  sequence : SequenceWriter W
  descriptors : DescriptorSet
  generation : UInt64
  progress : TemporalProgress

def Encoder.start {W : Sink} (encoder : Encoder) (sink : W.State) :
    EStateM.Result Error (SequenceWriter W) (EncodingWriter W) :=
  match SequenceWriter.pushDescriptors encoder.descriptors (SequenceWriter.new sink) with
  | .error e sequence => .error e sequence
  | .ok () sequence => .ok ⟨sequence, encoder.descriptors, encoder.generation, .initial⟩ sequence

namespace EncodingWriter

variable {W : Sink}

abbrev Push (W : Sink) := EStateM Error (EncodingWriter W) Unit

def encoder (w : EncodingWriter W) : Encoder := ⟨w.descriptors, w.generation⟩

def onSequence (f : SequenceWriter.Push W) : Push W := fun w =>
  match f w.sequence with
  | .ok () sequence => .ok () { w with sequence := sequence }
  | .error e sequence => .error e { w with sequence := sequence }

def pushTemporalUnit (input : TemporalUnitInput) : Push W := do
  onSequence SequenceWriter.checkNotPoisoned
  let w ← get
  let (unit, next) ← orThrow (w.encoder.preflight w.progress input)
  onSequence (SequenceWriter.pushTemporalUnit unit)
  modify fun w => { w with progress := next }

-- an Opus stream whose run of start trims is still open must have trimmed its whole pre-skip
def preSkipTrimmed (w : EncodingWriter W) : Bool :=
  w.encoder.opusPreSkip.all fun preSkip =>
    !(w.progress.startTrimOpen && w.progress.startTrimTotal != preSkip.toUInt32)

def finish : Push W := do
  onSequence SequenceWriter.checkNotPoisoned
  let w ← get
  ensure w.preSkipTrimmed (temporalInput .opusStartTrimShortOfPreSkip "trimming")
  onSequence SequenceWriter.finish

def outcome (f : Push W) (w : EncodingWriter W) : Except Error Unit × EncodingWriter W :=
  match f w with
  | .ok () w' => (.ok (), w')
  | .error e w' => (.error e, w')

def after (w : EncodingWriter W) : List TemporalUnitInput → EncodingWriter W
  | [] => w
  | input :: inputs => after (outcome (pushTemporalUnit input) w).2 inputs

def answers (w : EncodingWriter W) : List TemporalUnitInput → List (Except Error Unit)
  | [] => []
  | input :: inputs =>
    (outcome (pushTemporalUnit input) w).1 :: answers (outcome (pushTemporalUnit input) w).2 inputs

theorem ready {w : EncodingWriter W} (sound : w.sequence.state ≠ .poisoned) :
    onSequence SequenceWriter.checkNotPoisoned w = .ok () w := by
  simp only [onSequence, SequenceWriter.checkNotPoisoned, if_neg sound]

theorem stopped {w : EncodingWriter W} (poisoned : w.sequence.state = .poisoned) :
    onSequence SequenceWriter.checkNotPoisoned w = .error w.sequence.poisonedError w := by
  simp only [onSequence, SequenceWriter.checkNotPoisoned, if_pos poisoned]

theorem onSequenceOk {f : SequenceWriter.Push W} {w : EncodingWriter W} {sequence : SequenceWriter W}
    (ran : f w.sequence = .ok () sequence) : onSequence f w = .ok () { w with sequence := sequence } := by
  simp only [onSequence, ran]

theorem onSequenceError {f : SequenceWriter.Push W} {w : EncodingWriter W} {sequence : SequenceWriter W} {e : Error}
    (ran : f w.sequence = .error e sequence) : onSequence f w = .error e { w with sequence := sequence } := by
  simp only [onSequence, ran]

inductive Pushed (w : EncodingWriter W) (input : TemporalUnitInput) : Except Error Unit × EncodingWriter W → Prop where
  | stopped (poisoned : w.sequence.state = .poisoned) : Pushed w input (.error w.sequence.poisonedError, w)
  | refused {e} (sound : w.sequence.state ≠ .poisoned) (checked : w.encoder.preflight w.progress input = .error e) :
      Pushed w input (.error e, w)
  | failed {unit next e sequence} (sound : w.sequence.state ≠ .poisoned)
      (checked : w.encoder.preflight w.progress input = .ok (unit, next))
      (sent : SequenceWriter.pushTemporalUnit unit w.sequence = .error e sequence) :
      Pushed w input (.error e, { w with sequence := sequence })
  | accepted {unit next sequence} (sound : w.sequence.state ≠ .poisoned)
      (checked : w.encoder.preflight w.progress input = .ok (unit, next))
      (sent : SequenceWriter.pushTemporalUnit unit w.sequence = .ok () sequence) :
      Pushed w input (.ok (), { w with sequence := sequence, progress := next })

theorem outcomeOk {f : Push W} {w w' : EncodingWriter W} (ran : f w = .ok () w') : outcome f w = (.ok (), w') := by
  simp only [outcome, ran]

theorem outcomeError {f : Push W} {w w' : EncodingWriter W} {e : Error} (ran : f w = .error e w') :
    outcome f w = (.error e, w') := by
  simp only [outcome, ran]

theorem pushedOutcome {w : EncodingWriter W} {input : TemporalUnitInput} {r : Except Error Unit × EncodingWriter W}
    (pushed : Pushed w input r) : outcome (pushTemporalUnit input) w = r := by
  have opened (sound : w.sequence.state ≠ .poisoned) : pushTemporalUnit input w =
      (orThrow (w.encoder.preflight w.progress input) >>= fun lowered =>
        onSequence (SequenceWriter.pushTemporalUnit lowered.1) >>= fun _ =>
          modify fun v => { v with progress := lowered.2 } : Push W) w := bindOf _ (ready sound)
  cases pushed with
  | stopped poisoned => exact outcomeError (bindError _ (stopped poisoned))
  | refused sound checked =>
    refine outcomeError ?_
    rw [opened sound, checked]
    rfl
  | failed sound checked sent =>
    refine outcomeError ?_
    rw [opened sound, orThrowOf _ checked]
    exact bindError _ (onSequenceError sent)
  | accepted sound checked sent =>
    refine outcomeOk ?_
    rw [opened sound, orThrowOf _ checked]
    exact bindOf _ (onSequenceOk sent)

theorem outcomePushed (w : EncodingWriter W) (input : TemporalUnitInput) :
    Pushed w input (outcome (pushTemporalUnit input) w) := by
  by_cases poisoned : w.sequence.state = .poisoned
  · have pushed : Pushed w input _ := .stopped poisoned
    rwa [pushedOutcome pushed]
  cases checked : w.encoder.preflight w.progress input with
  | error e =>
    have pushed := Pushed.refused poisoned checked
    rwa [pushedOutcome pushed]
  | ok lowered =>
    cases sent : SequenceWriter.pushTemporalUnit lowered.1 w.sequence with
    | error e sequence =>
      have pushed := Pushed.failed poisoned checked sent
      rwa [pushedOutcome pushed]
    | ok u sequence =>
      have pushed := Pushed.accepted poisoned checked sent
      rwa [pushedOutcome pushed]

inductive Finished (w : EncodingWriter W) : Except Error Unit × EncodingWriter W → Prop where
  | stopped (poisoned : w.sequence.state = .poisoned) : Finished w (.error w.sequence.poisonedError, w)
  | short (sound : w.sequence.state ≠ .poisoned) (trimmed : w.preSkipTrimmed = false) :
      Finished w (.error (temporalInput .opusStartTrimShortOfPreSkip "trimming"), w)
  | failed {e sequence} (sound : w.sequence.state ≠ .poisoned) (trimmed : w.preSkipTrimmed = true)
      (ended : SequenceWriter.finish w.sequence = .error e sequence) :
      Finished w (.error e, { w with sequence := sequence })
  | done {sequence} (sound : w.sequence.state ≠ .poisoned) (trimmed : w.preSkipTrimmed = true)
      (ended : SequenceWriter.finish w.sequence = .ok () sequence) :
      Finished w (.ok (), { w with sequence := sequence })

theorem finishedOutcome {w : EncodingWriter W} {r : Except Error Unit × EncodingWriter W} (finished : Finished w r) :
    outcome finish w = r := by
  have opened (sound : w.sequence.state ≠ .poisoned) : finish w =
      (ensure w.preSkipTrimmed (temporalInput .opusStartTrimShortOfPreSkip "trimming") >>= fun _ =>
        onSequence SequenceWriter.finish : Push W) w := bindOf _ (ready sound)
  cases finished with
  | stopped poisoned => exact outcomeError (bindError _ (stopped poisoned))
  | short sound trimmed =>
    refine outcomeError ?_
    rw [opened sound, trimmed]
    rfl
  | failed sound trimmed ended =>
    refine outcomeError ?_
    rw [opened sound, trimmed]
    exact onSequenceError ended
  | done sound trimmed ended =>
    refine outcomeOk ?_
    rw [opened sound, trimmed]
    exact onSequenceOk ended

theorem outcomeFinished (w : EncodingWriter W) : Finished w (outcome finish w) := by
  by_cases poisoned : w.sequence.state = .poisoned
  · have finished := Finished.stopped poisoned
    rwa [finishedOutcome finished]
  cases trimmed : w.preSkipTrimmed with
  | false =>
    have finished := Finished.short poisoned trimmed
    rwa [finishedOutcome finished]
  | true =>
    cases ended : SequenceWriter.finish w.sequence with
    | error e sequence =>
      have finished := Finished.failed poisoned trimmed ended
      rwa [finishedOutcome finished]
    | ok u sequence =>
      have finished := Finished.done poisoned trimmed ended
      rwa [finishedOutcome finished]

end EncodingWriter

end Iamf.Wire
