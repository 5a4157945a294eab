import Iamf.SequencePrefix
import Iamf.Sink

/-! A parsed sequence written back in its own order. The definitions that govern its Parameter
Blocks are collected again while writing, and nothing reaches the sink before all of it is encoded. -/
namespace Iamf.Wire
open Bits BitString TapeCodec ReadTape WriteTape

def noGoverningParamDefinition : Error := ⟨.noGoverningParamDefinition, .field "parameter_id"⟩

def writeSequenceObu (registry : ParamDefinitionRegistry) : SequenceObu → Writer Unit
  | .iaSequenceHeader obu => writeObuWith obu writeIaSequenceHeader
  | .codecConfig obu => writeObuWith obu writeCodecConfig
  | .audioElement obu => writeObuWith obu writeAudioElement
  | .mixPresentation obu => writeObuWith obu writeMixPresentation
  | .parameterBlock obu =>
    match registry.get obu.payload.parameterId with
    | none => throw noGoverningParamDefinition
    | some registered => writeObuWith obu (writeParameterBlock registered.definition registered.context)
  | .ungovernedParameterBlock obu => writeObu obu.header obu.payload
  | .temporalDelimiter obu => writeObuWith obu writeTemporalDelimiter
  | .audioFrame obu => writeObuWithHeader obu writeAudioFrame
  | .unknown obu => writeObu obu.header obu.payload

def ParamDefinitionRegistry.observeObu (registry : ParamDefinitionRegistry) : SequenceObu → ParamDefinitionRegistry
  | .audioElement obu => registry.observeAudioElement obu.payload
  | .mixPresentation obu => registry.observeMixPresentation obu.payload
  | _ => registry

def writeSequenceObus (registry : ParamDefinitionRegistry) : List SequenceObu → Writer Unit
  | [] => pure ()
  | obu :: obus => do
    writeSequenceObu registry obu
    writeSequenceObus (registry.observeObu obu) obus

def sinkWriteError (at' : Nat) : Error := ⟨.sinkWrite, .outputOffset at'⟩

def sinkWriteAll (sink : Sink) (bytes : Bytes) : EStateM Error sink.State Unit := fun s =>
  match sink.writeAll bytes s with
  | (true, s') => .ok () s'
  | (false, s') => .error (sinkWriteError 0) s'

def sinkFlush (sink : Sink) (at' : Nat) : EStateM Error sink.State Unit := fun s =>
  match sink.flush s with
  | (true, s') => .ok () s'
  | (false, s') => .error (sinkWriteError at') s'

-- the sink of `write_parsed_sequence` is the state, so that a failure leaves visible what it took
def writeParsedSequence (sink : Sink) (sequence : ParsedSequence) : EStateM Error sink.State Unit := do
  let bytes ← orThrow (finishWriter (writeSequenceObus .new sequence.obus))
  sinkWriteAll sink bytes
  sinkFlush sink 0

def Octets (g : Writer Unit) : Prop :=
  (∀ bytes, finishWriter g = .ok bytes → ∀ w : BitWriter, w.bitOff = 0 →
    g w = .ok () (append (bytesBits bytes) w)) ∧
  (∀ e, finishWriter g = .error e → ∀ w : BitWriter, w.bitOff = 0 →
    ∃ e' w', g w = .error e' w' ∧ e'.kind = e.kind)

theorem writtenWithin {g : Writer Unit} {n : Nat}
    (written : (finishWriter g).toOption.any (fun bytes => bytes.length ≤ n) = true) :
    ∃ bytes, finishWriter g = .ok bytes ∧ bytes.length ≤ n := by
  cases done : finishWriter g with
  | error e =>
    rw [done] at written
    cases written
  | ok bytes =>
    rw [done] at written
    exact ⟨bytes, rfl, of_decide_eq_true written⟩

theorem finishWriterOk {g : Writer Unit} {bits : List Bool} {bytes : Bytes} (octets : bits = bytesBits bytes)
    (ok : g .new = .ok () (append bits .new)) : finishWriter g = .ok bytes := by
  unfold finishWriter runWriter
  rw [ok]
  exact BitWriter.finishAppend octets

theorem finishWriterError {g : Writer Unit} {e : Error} {w : BitWriter} (failed : g .new = .error e w) :
    finishWriter g = .error e := by
  unfold finishWriter runWriter
  rw [failed]
  rfl

theorem octetsPure : Octets (pure ()) := by
  refine ⟨fun bytes ok w _ => ?_, fun e ok => ?_⟩
  · cases ok
    exact emitsPure w
  · cases ok

theorem octetsThrow (e : Error) : Octets (throw e) := by
  refine ⟨fun bytes ok => ?_, fun e' ok w _ => ?_⟩
  · cases ok
  · cases ok
    exact ⟨e, w, rfl, rfl⟩

theorem alignedBehind {bytes : Bytes} {w : BitWriter} (aligned : w.bitOff = 0) :
    (append (bytesBits bytes) w).bitOff = 0 := by
  change (BitWriter.append _ w).bitOff = 0
  rw [BitWriter.appendBitOff, aligned, bytesBitsLength]
  omega

theorem finishWriterBind {g h : Writer Unit} (first : Octets g) (second : Octets h) {bytes : Bytes} :
    finishWriter (g >>= fun _ => h) = .ok bytes ↔
      ∃ a b, finishWriter g = .ok a ∧ finishWriter h = .ok b ∧ bytes = a ++ b := by
  have both {a b : Bytes} (head : finishWriter g = .ok a) (tail : finishWriter h = .ok b) :
      finishWriter (g >>= fun _ => h) = .ok (a ++ b) := by
    refine finishWriterOk (bytesBitsAppend a b).symm ?_
    rw [bindOf _ (first.1 a head .new rfl), second.1 b tail _ (alignedBehind rfl), appendAppend]
  constructor
  · intro ok
    cases head : finishWriter g with
    | error e =>
      obtain ⟨e', w', failed, _⟩ := first.2 e head .new rfl
      rw [finishWriterError (bindError _ failed)] at ok
      cases ok
    | ok a =>
      cases tail : finishWriter h with
      | error e =>
        obtain ⟨e', w', failed, _⟩ := second.2 e tail (append (bytesBits a) .new) (alignedBehind rfl)
        rw [finishWriterError ((bindOf _ (first.1 a head .new rfl)).trans failed)] at ok
        cases ok
      | ok b =>
        rw [both head tail] at ok
        cases ok
        exact ⟨a, b, rfl, rfl, rfl⟩
  · rintro ⟨a, b, head, tail, rfl⟩
    exact both head tail

theorem finishWriterBindFails {g h : Writer Unit} (first : Octets g) (second : Octets h) {e : Error}
    (failed : finishWriter (g >>= fun _ => h) = .error e) :
    (∃ e', finishWriter g = .error e' ∧ e'.kind = e.kind) ∨
      ∃ a e', finishWriter g = .ok a ∧ finishWriter h = .error e' ∧ e'.kind = e.kind := by
  cases head : finishWriter g with
  | error e1 =>
    obtain ⟨e', w', early, kind⟩ := first.2 e1 head .new rfl
    rw [finishWriterError (bindError _ early)] at failed
    cases failed
    exact .inl ⟨e1, rfl, kind.symm⟩
  | ok a =>
    cases tail : finishWriter h with
    | error e1 =>
      obtain ⟨e', w', late, kind⟩ := second.2 e1 tail (append (bytesBits a) .new) (alignedBehind rfl)
      rw [finishWriterError ((bindOf _ (first.1 a head .new rfl)).trans late)] at failed
      cases failed
      exact .inr ⟨a, e1, rfl, rfl, kind.symm⟩
    | ok b =>
      rw [(finishWriterBind first second).mpr ⟨a, b, head, tail, rfl⟩] at failed
      cases failed

theorem octetsBind {g h : Writer Unit} (first : Octets g) (second : Octets h) : Octets (g >>= fun _ => h) := by
  refine ⟨fun bytes ok w aligned => ?_, fun e failed w aligned => ?_⟩
  · obtain ⟨a, b, head, tail, rfl⟩ := (finishWriterBind first second).mp ok
    rw [bindOf _ (first.1 a head w aligned), second.1 b tail _ (alignedBehind aligned), appendAppend,
      bytesBitsAppend]
  · rcases finishWriterBindFails first second failed with ⟨e1, head, kind⟩ | ⟨a, e1, head, tail, kind⟩
    · obtain ⟨e', w', early, same⟩ := first.2 e1 head w aligned
      exact ⟨e', w', bindError _ early, same.trans kind⟩
    · obtain ⟨e', w', late, same⟩ := second.2 e1 tail _ (alignedBehind aligned)
      exact ⟨e', w', (bindOf _ (first.1 a head w aligned)).trans late, same.trans kind⟩

theorem octetsOrThrow {x : Except Error Bytes} {k : Bytes → Writer Unit} (each : ∀ bytes, Octets (k bytes)) :
    Octets (orThrow x >>= k) := by
  cases x with
  | ok bytes =>
    rw [orThrowOf _ rfl]
    exact each bytes
  | error e => exact octetsThrow e

theorem frameOctetsOfWrite (header : ObuHeader) (obuSize : UInt32) (fields payload : Bytes) :
    ∃ bytes, frameBits header obuSize fields payload = bytesBits bytes := by
  have octets : (frameBits header obuSize fields payload).length =
      8 * (1 + minimalLen obuSize.toNat + (fields ++ payload).length) := by
    simp only [frameBits, firstByteBits, List.length_append, bitsOfLength, ulebBitsLength, bytesBitsLength]
    omega
  exact ⟨_, (packBitsExact _ _ octets).symm⟩

theorem writeObuFails {header : ObuHeader} {payload : Bytes} {e : Error} {w : BitWriter} (aligned : w.bitOff = 0)
    (refused : measureObu header payload.length = .error e) : writeObu header payload w = .error e w := by
  unfold writeObu
  rw [bindOf _ (getWriterOk w)]
  simp only [BitWriter.isByteAligned, aligned, refused]
  rw [show ((0 : Nat) == 0) = true from rfl, ensureTrue, bindOf _ (pureOk () w)]
  rfl

theorem writeObuWide {header : ObuHeader} {payload : Bytes} {measured : UInt32 × Bytes} {w : BitWriter}
    (aligned : w.bitOff = 0) (ok : measureObu header payload.length = .ok measured)
    (wide : ¬ header.obuType.value.toNat < 32) :
    writeObu header payload w = .error (w.outputError (.valueExceedsWidth (widthByte 5))) w := by
  have refused : writeUnsigned header.obuType.value.toNat 5 w =
      .error (w.outputError (.valueExceedsWidth (widthByte 5))) w := by
    unfold writeUnsigned
    rw [bindOf _ (getWriterOk w), if_neg (by omega), if_pos ⟨by omega, by omega⟩]
    rfl
  unfold writeObu
  rw [bindOf _ (getWriterOk w)]
  simp only [BitWriter.isByteAligned, aligned, ok]
  rw [show ((0 : Nat) == 0) = true from rfl, ensureTrue, bindOf _ (pureOk () w), orThrowOf _ rfl]
  exact bindError _ refused

theorem octetsWriteObu (header : ObuHeader) (payload : Bytes) : Octets (writeObu header payload) := by
  cases measure : measureObu header payload.length with
  | error e =>
    have failed {w : BitWriter} (aligned : w.bitOff = 0) := writeObuFails aligned measure
    refine ⟨fun bytes ok => ?_, fun e' failed' w aligned => ⟨e, w, failed aligned, ?_⟩⟩
    · rw [finishWriterError (failed rfl)] at ok
      cases ok
    · rw [finishWriterError (failed rfl)] at failed'
      cases failed'
      rfl
  | ok measured =>
    by_cases fiveBits : header.obuType.value.toNat < 32
    · obtain ⟨obuSize, fields⟩ := measured
      have written {w : BitWriter} (aligned : w.bitOff = 0) :=
        writeObuOk aligned fiveBits (measureObuOk.mp measure)
      obtain ⟨frame, octets⟩ := frameOctetsOfWrite header obuSize fields payload
      have finished := finishWriterOk octets (written rfl)
      refine ⟨fun bytes ok w aligned => ?_, fun e failed => ?_⟩
      · cases finished.symm.trans ok
        rw [written aligned, octets]
      · cases finished.symm.trans failed
    · have failed {w : BitWriter} (aligned : w.bitOff = 0) := writeObuWide aligned measure fiveBits
      refine ⟨fun bytes ok => ?_, fun e failed' w aligned => ⟨_, w, failed aligned, ?_⟩⟩
      · rw [finishWriterError (failed rfl)] at ok
        cases ok
      · rw [finishWriterError (failed rfl)] at failed'
        cases failed'
        rfl

theorem octetsWriteObuWithHeader {T : Type} (obu : Obu T) (writePayload : ObuHeader → T → Writer Unit) :
    Octets (writeObuWithHeader obu writePayload) := by
  unfold writeObuWithHeader
  exact octetsOrThrow fun bytes => octetsWriteObu obu.header (bytes ++ obu.trailing)

theorem octetsWriteSequenceObu (registry : ParamDefinitionRegistry) (obu : SequenceObu) :
    Octets (writeSequenceObu registry obu) := by
  cases obu with
  | parameterBlock obu =>
    unfold writeSequenceObu
    simp only
    split
    · exact octetsThrow _
    · exact octetsWriteObuWithHeader ..
  | ungovernedParameterBlock obu => exact octetsWriteObu ..
  | unknown obu => exact octetsWriteObu ..
  | iaSequenceHeader obu => exact octetsWriteObuWithHeader obu fun _ => writeIaSequenceHeader
  | codecConfig obu => exact octetsWriteObuWithHeader obu fun _ => writeCodecConfig
  | audioElement obu => exact octetsWriteObuWithHeader obu fun _ => writeAudioElement
  | mixPresentation obu => exact octetsWriteObuWithHeader obu fun _ => writeMixPresentation
  | temporalDelimiter obu => exact octetsWriteObuWithHeader obu fun _ => writeTemporalDelimiter
  | audioFrame obu => exact octetsWriteObuWithHeader obu writeAudioFrame

theorem octetsWriteSequenceObus (registry : ParamDefinitionRegistry) (obus : List SequenceObu) :
    Octets (writeSequenceObus registry obus) := by
  induction obus generalizing registry with
  | nil => exact octetsPure
  | cons obu obus ih => exact octetsBind (octetsWriteSequenceObu registry obu) (ih _)

theorem writeSequenceObusCons {registry : ParamDefinitionRegistry} {obu : SequenceObu} {obus : List SequenceObu}
    {bytes : Bytes} : finishWriter (writeSequenceObus registry (obu :: obus)) = .ok bytes ↔
      ∃ a b, finishWriter (writeSequenceObu registry obu) = .ok a ∧
        finishWriter (writeSequenceObus (registry.observeObu obu) obus) = .ok b ∧ bytes = a ++ b :=
  finishWriterBind (octetsWriteSequenceObu registry obu) (octetsWriteSequenceObus _ obus)

theorem writeObuFinished {header : ObuHeader} {payload bytes : Bytes} :
    finishWriter (writeObu header payload) = .ok bytes ↔ header.obuType.value.toNat < 32 ∧
      ∃ obuSize fields, Measured header payload.length obuSize fields ∧
        bytesBits bytes = frameBits header obuSize fields payload := by
  constructor
  · intro ok
    have success := ok
    unfold finishWriter runWriter at ok
    obtain ⟨w, run, _⟩ := exceptBindOk ok
    split at run
    · rename_i w' written
      obtain ⟨_, fiveBits, obuSize, fields, measured, _⟩ := writeObuSource written
      refine ⟨fiveBits, obuSize, fields, measured, ?_⟩
      obtain ⟨frame, octets⟩ := frameOctetsOfWrite header obuSize fields payload
      cases (finishWriterOk octets (writeObuOk rfl fiveBits measured)).symm.trans success
      exact octets.symm
    · cases run
  · rintro ⟨fiveBits, obuSize, fields, measured, octets⟩
    exact finishWriterOk octets.symm (writeObuOk rfl fiveBits measured)

theorem writeObuWithHeaderFinished {T : Type} {obu : Obu T} {writePayload : ObuHeader → T → Writer Unit}
    {bytes : Bytes} : finishWriter (writeObuWithHeader obu writePayload) = .ok bytes ↔
      ∃ payload, finishWriter (writePayload obu.header obu.payload) = .ok payload ∧
        finishWriter (writeObu obu.header (payload ++ obu.trailing)) = .ok bytes := by
  unfold writeObuWithHeader
  cases encoded : finishWriter (writePayload obu.header obu.payload) with
  | error e =>
    refine ⟨fun ok => ?_, ?_⟩
    · rw [finishWriterError (bindError _ (show orThrow (.error e) BitWriter.new = .error e _ from rfl))] at ok
      cases ok
    · rintro ⟨payload, absurd, _⟩
      cases absurd
  | ok payload =>
    rw [orThrowOf _ rfl]
    constructor
    · intro ok
      exact ⟨payload, rfl, ok⟩
    · rintro ⟨payload', same, ok⟩
      cases same
      exact ok

theorem writeParsedSequenceHeld {sink : Sink} {sequence : ParsedSequence} {start stop : sink.State}
    (ok : writeParsedSequence sink sequence start = .ok () stop) :
    ∃ bytes, finishWriter (writeSequenceObus .new sequence.obus) = .ok bytes ∧
      sink.held stop = sink.held start ++ bytes := by
  unfold writeParsedSequence at ok
  obtain ⟨bytes, s1, thrown, steps⟩ := bindOk ok
  obtain ⟨encoded, same⟩ := orThrowOk thrown
  subst same
  obtain ⟨_, s2, written, ended⟩ := bindOk steps
  refine ⟨bytes, encoded, ?_⟩
  unfold sinkWriteAll at written
  unfold sinkFlush at ended
  split at written
  · rename_i s3 taken
    cases written
    split at ended
    · rename_i s4 flush
      cases ended
      rw [(sink.flushes flush).1, Sink.writeAllHeld taken]
    · cases ended
  · cases written

theorem writeParsedSequenceFails (sink : Sink) {sequence : ParsedSequence} {e : Error} (start : sink.State)
    (failed : finishWriter (writeSequenceObus .new sequence.obus) = .error e) :
    writeParsedSequence sink sequence start = .error e start := by
  unfold writeParsedSequence
  rw [failed]
  rfl

theorem writeParsedSequenceTaken {sink : Sink} (all : sink.AcceptsAll) {sequence : ParsedSequence} {bytes : Bytes}
    (start : sink.State) (ok : finishWriter (writeSequenceObus .new sequence.obus) = .ok bytes) :
    ∃ stop, writeParsedSequence sink sequence start = .ok () stop := by
  obtain ⟨s, taken⟩ := Sink.writeAllTaken all bytes start
  have flushed := all.flushed s
  rcases flush : sink.flush s with ⟨done, s'⟩
  rw [flush] at flushed
  have written : sinkWriteAll sink bytes start = .ok () s := by simp only [sinkWriteAll, taken]
  have ended : sinkFlush sink 0 s = .ok () s' := by
    rw [show done = true from flushed] at flush
    simp only [sinkFlush, flush]
  refine ⟨s', ?_⟩
  unfold writeParsedSequence
  rw [orThrowOf _ ok, bindOf _ written, ended]

end Iamf.Wire
