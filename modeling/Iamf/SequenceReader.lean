import Iamf.AudioElementCodec
import Iamf.AudioFrame
import Iamf.CodecConfigCodec
import Iamf.MixPresentationCodec
import Iamf.ParameterBlockCodec
import Iamf.SequenceHeader

/-! A whole IA Sequence, read one OBU after another. Every Parameter Block is read under the
definitions seen before it; what no definition governs, and what no type names, is kept. -/
namespace Iamf.Wire
open Bits BitString TapeCodec ReadTape

structure UnknownObu where
  header : ObuHeader
  payload : Bytes
  deriving DecidableEq

structure UngovernedParameterBlock where
  header : ObuHeader
  payload : Bytes
  deriving DecidableEq

inductive SequenceObu where
  | iaSequenceHeader (obu : Obu IaSequenceHeader)
  | codecConfig (obu : Obu CodecConfig)
  | audioElement (obu : Obu AudioElement)
  | mixPresentation (obu : Obu MixPresentation)
  | parameterBlock (obu : Obu ParameterBlock)
  | ungovernedParameterBlock (obu : UngovernedParameterBlock)
  | temporalDelimiter (obu : Obu TemporalDelimiter)
  | audioFrame (obu : Obu AudioFrame)
  | unknown (obu : UnknownObu)
  deriving DecidableEq

structure ParsedSequence where
  obus : List SequenceObu
  deriving DecidableEq

-- payload errors are reported at their place in the whole input
def rebased {T : Type} (payloadBase : Nat) (f : Reader T) : Reader T := fun r =>
  match f r with
  | .ok v r' => .ok v r'
  | .error e r' => .error (e.withInputBase payloadBase) r'

section

variable [UlebForm]

def inspectHeader : Reader (ObuHeader × Nat) := do
  let (header, _) ← readObuHeader
  let payloadBase ← bytePosition
  pure (header, payloadBase)

def nextObu (registry : ParamDefinitionRegistry) : Reader (SequenceObu × ParamDefinitionRegistry) := do
  let (header, payloadBase) ← peek inspectHeader
  match header.obuType with
  | .iaSequenceHeader => do
    let obu ← readObuWith (rebased payloadBase readIaSequenceHeader)
    pure (.iaSequenceHeader ⟨obu.header, { obu.payload with trailing := [] }, obu.payload.trailing⟩, registry)
  | .codecConfig => do
    let obu ← readObuWith (rebased payloadBase readCodecConfig)
    pure (.codecConfig ⟨obu.header, { obu.payload with trailing := [] }, obu.payload.trailing⟩, registry)
  | .audioElement => do
    let obu ← readObuWith (rebased payloadBase readAudioElement)
    let element := { obu.payload with trailing := [] }
    pure (.audioElement ⟨obu.header, element, obu.payload.trailing⟩, registry.observeAudioElement element)
  | .mixPresentation => do
    let obu ← readObuWith (rebased payloadBase readMixPresentation)
    let presentation := { obu.payload with trailing := [] }
    pure (.mixPresentation ⟨obu.header, presentation, obu.payload.trailing⟩,
      registry.observeMixPresentation presentation)
  | .parameterBlock => do
    -- a block that stays ungoverned keeps its bytes, its id among them, as they came
    let inspected ← peek (readObuWith (rebased payloadBase (@readUleb128 sourceForms)))
    if (registry.get inspected.payload).isSome then do
      let obu ← readObuWith (rebased payloadBase (readParameterBlock registry))
      pure (.parameterBlock obu, registry)
    else do
      let obu ← readObuWith (rebased payloadBase readTrailing)
      pure (.ungovernedParameterBlock ⟨obu.header, obu.payload⟩, registry)
  | .temporalDelimiter => do
    let obu ← readObuWith (rebased payloadBase readTemporalDelimiter)
    pure (.temporalDelimiter obu, registry)
  | .reserved _ => do
    let obu ← readObuWith (rebased payloadBase readTrailing)
    pure (.unknown ⟨obu.header, obu.payload⟩, registry)
  | _ => do
    let obu ← readObuWithHeader fun actual => rebased payloadBase (readAudioFrame actual)
    pure (.audioFrame obu, registry)

end

structure SequenceReader where
  reader : BitCursor
  registry : ParamDefinitionRegistry
  finished : Bool

namespace SequenceReader

def new (input : Bytes) : SequenceReader := ⟨BitCursor.new input, .new, false⟩

def bytePosition (s : SequenceReader) : Nat := s.reader.bytePosition

section

variable [UlebForm]

def next (s : SequenceReader) : Option (Except Error SequenceObu) × SequenceReader :=
  if s.finished || s.reader.bytesRemaining == 0 then (none, s)
  else
    match nextObu s.registry s.reader with
    | .ok (obu, registry) reader => (some (.ok obu), ⟨reader, registry, s.finished⟩)
    | .error e _ => (some (.error e), { s with finished := true })

def take : Nat → SequenceReader → List (Except Error SequenceObu)
  | 0, _ => []
  | calls+1, s =>
    match s.next with
    | (none, _) => []
    | (some item, s') => item :: s'.take calls

def after : Nat → SequenceReader → SequenceReader
  | 0, s => s
  | calls+1, s => after calls s.next.2

end

end SequenceReader

def collectItems {T : Type} : List (Except Error T) → Except Error (List T)
  | [] => .ok []
  | item :: items => do
    let value ← item
    let values ← collectItems items
    .ok (value :: values)

-- one call more than the input has bytes exhausts the reader
def parseSequence [UlebForm] (input : Bytes) : Except Error ParsedSequence := do
  let obus ← collectItems ((SequenceReader.new input).take (input.length + 1))
  .ok ⟨obus⟩

end Iamf.Wire
