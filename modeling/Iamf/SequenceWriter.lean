import Iamf.DescriptorSet

/-! The streaming writer: descriptors first, then one temporal unit after another. A unit is
encoded once to see that it can be and once more to send it, both times into one scratch buffer. -/
namespace Iamf.Wire
open Bits BitString TapeCodec WriteTape

inductive State where
  | fresh
  | descriptorsWritten
  | poisoned
  deriving DecidableEq, Repr

structure SequenceWriter (W : Sink) where
  sink : W.State
  state : State
  scratch : BitWriter
  definitions : ParamDefinitionRegistry
  bytesWritten : Nat

namespace SequenceWriter

variable {W : Sink}

abbrev Push (W : Sink) := EStateM Error (SequenceWriter W) Unit

def new (sink : W.State) : SequenceWriter W := ⟨sink, .fresh, .new, .new, 0⟩

def poisonedError (w : SequenceWriter W) : Error := ⟨.sequenceWriterPoisoned, .outputOffset w.bytesWritten⟩

def checkNotPoisoned : Push W := fun w => if w.state = .poisoned then .error w.poisonedError w else .ok () w

def clearScratch : Push W := fun w => .ok () { w with scratch := w.scratch.clear }

def inScratch (g : Writer Unit) : Push W := fun w =>
  match g w.scratch with
  | .ok () scratch => .ok () { w with scratch := scratch }
  | .error e scratch => .error e { w with scratch := scratch }

-- the loop of `flush_scratch`; an interrupted write is offered again
def flushFrom (remaining : Bytes) : Push W := fun w =>
  if remaining = [] then .ok () w
  else
    match W.offer remaining (W.patience w.sink remaining) w.sink with
    | (some (written+1), sink) =>
      if w.bytesWritten + (written + 1) > u64Max then
        .error ⟨.obuSizeOverflow, .unlocated⟩ { w with sink := sink, state := .poisoned }
      else
        flushFrom (remaining.drop (written + 1))
          { w with sink := sink, bytesWritten := w.bytesWritten + (written + 1) }
    | (_, sink) => .error (sinkWriteError w.bytesWritten) { w with sink := sink, state := .poisoned }
termination_by remaining.length
decreasing_by
  have positive := List.length_pos_iff.mpr ‹¬remaining = []›
  rw [List.length_drop]
  omega

def flushScratch : Push W := fun w =>
  match w.scratch.asBytes with
  | .error e => .error e w
  | .ok bytes => flushFrom bytes w

def serializeObu (g : Writer Unit) : Push W := do
  clearScratch
  inScratch g

def emitObu (g : Writer Unit) : Push W := do
  serializeObu g
  flushScratch

def emitPreflightedObu (g : Writer Unit) : Push W := fun w =>
  match emitObu g w with
  | .ok () w' => .ok () w'
  | .error e w' => .error e { w' with state := .poisoned }

def definitionFor (parameterId : UInt32) : EStateM Error (SequenceWriter W) RegisteredParamDefinition := fun w =>
  match w.definitions.get parameterId with
  | none => .error noGoverningParamDefinition w
  | some registered => .ok registered w

def eachObu (act : Writer Unit → Push W) (unit : TemporalUnit) : Push W := do
  writeEach (fun delimiter => act (writeObuWithHeader (.new (.new .temporalDelimiter) delimiter)
    fun _ => writeTemporalDelimiter)) unit.temporalDelimiter.toList
  writeEach (fun block => do
    let governing ← definitionFor block.payload.parameterId
    act (writeObuWithHeader block fun _ => writeParameterBlock governing.definition governing.context))
    unit.parameterBlocks
  writeEach (fun frame => act (writeObuWithHeader frame writeAudioFrame)) unit.audioFrames

def preflightTemporalUnit (unit : TemporalUnit) : Push W := do
  orThrow (validateTemporalUnit unit.audioFrames)
  eachObu serializeObu unit

def pushDescriptors (descriptors : DescriptorSet) : Push W := fun w =>
  match w.state with
  | .descriptorsWritten => .error ⟨.descriptorsAlreadyWritten, .outputOffset w.bytesWritten⟩ w
  | .poisoned => .error w.poisonedError w
  | .fresh => (do
      modify fun w => { w with definitions := .fromDescriptors descriptors }
      clearScratch
      inScratch (writeDescriptors descriptors)
      flushScratch
      modify fun w => { w with state := .descriptorsWritten } : Push W) w

def pushTemporalUnit (unit : TemporalUnit) : Push W := fun w =>
  match w.state with
  | .fresh => .error ⟨.descriptorsNotWritten, .outputOffset w.bytesWritten⟩ w
  | .poisoned => .error w.poisonedError w
  | .descriptorsWritten => (do
      preflightTemporalUnit unit
      eachObu emitPreflightedObu unit : Push W) w

def finish : Push W := fun w =>
  if w.state = .poisoned then .error w.poisonedError w
  else
    match W.flush w.sink with
    | (true, sink) => .ok () { w with sink := sink }
    | (false, sink) => .error (sinkWriteError w.bytesWritten) { w with sink := sink }

end SequenceWriter

def writeSequenceCalls {W : Sink} (descriptors : DescriptorSet) (units : List TemporalUnit) :
    SequenceWriter.Push W := do
  SequenceWriter.pushDescriptors descriptors
  writeEach SequenceWriter.pushTemporalUnit units
  SequenceWriter.finish

def writeSequence (W : Sink) (descriptors : DescriptorSet) (units : List TemporalUnit) :
    EStateM Error W.State Unit := fun sink =>
  match writeSequenceCalls descriptors units (SequenceWriter.new sink) with
  | .ok () w => .ok () w.sink
  | .error e w => .error e w.sink

end Iamf.Wire
