import Iamf.DescriptorFits
import Iamf.RepeatedDescriptors

/-! OBUs that are written and come back as they were, and what may be put between them. -/
namespace Iamf.Wire
open Bits BitString TapeCodec

theorem writtenReadsBack {sink : Sink} {start stop : sink.State} {s : ParsedSequence} {b : Bytes}
    (written : writeParsedSequence sink s start = .ok () stop) (held : sink.held stop = sink.held start ++ b) :
    parseSequence b = .ok s ↔ SettledObus .new s.obus := by
  obtain ⟨bytes, encoded, all⟩ := writeParsedSequenceHeld written
  cases List.append_cancel_left (held.symm.trans all)
  constructor
  · intro parsed
    obtain ⟨last, source⟩ := parseSequenceOk.mp parsed
    exact settledOfSource source
  · intro settled
    exact parseOfWrite settled encoded

def governedObus : List SequenceObu := [.ofAudioElement demixedElement,
  .parameterBlock (.new (.new .parameterBlock) ⟨9, some ⟨8, 8⟩, [⟨none, .demixing ⟨2, 0⟩⟩]⟩)]

-- the same bytes, the block not being told what governs it
def unsettledObus : List SequenceObu := [.ofAudioElement demixedElement,
  .ungovernedParameterBlock ⟨.new .parameterBlock, [9, 8, 8, 64]⟩]

def governedBytes : Bytes := 8 :: demixedBytes ++ [24, 4, 9, 8, 8, 64]

theorem writtenReadsBackGoverned :
    (parseSequence governedBytes = .ok ⟨governedObus⟩ ∧ SettledObus .new governedObus) ∧
    parseSequence governedBytes ≠ .ok ⟨unsettledObus⟩ ∧ ¬ SettledObus .new unsettledObus := by
  have written {obus : List SequenceObu} (encoded : finishWriter (writeSequenceObus .new obus) = .ok governedBytes) :
      parseSequence governedBytes = .ok ⟨obus⟩ ↔ SettledObus .new obus := by
    obtain ⟨stop, written⟩ : ∃ stop, writeParsedSequence Sink.buffer ⟨obus⟩ [] = .ok () stop :=
      writeParsedSequenceTaken Sink.bufferAcceptsAll [] encoded
    obtain ⟨bytes, encoded', held⟩ := writeParsedSequenceHeld written
    cases encoded.symm.trans encoded'
    exact writtenReadsBack written held
  have governed : parseSequence governedBytes = .ok ⟨governedObus⟩ := by decide +kernel
  have other : parseSequence governedBytes ≠ .ok ⟨unsettledObus⟩ := by
    rw [governed]
    decide +kernel
  exact ⟨⟨governed, (written (by decide +kernel)).mp governed⟩, other, fun settled =>
    other ((written (by decide +kernel)).mpr settled)⟩

structure SequenceObu.Sendable (registry : ParamDefinitionRegistry) (obu : SequenceObu) : Prop where
  settled : obu.Settled registry
  written : Writable (writeSequenceObu registry obu)

def SequenceObu.Silent (obu : SequenceObu) : Prop :=
  ∀ registry : ParamDefinitionRegistry, registry.observeObu obu = registry

inductive SendableObus : ParamDefinitionRegistry → List SequenceObu → Prop where
  | nil {registry} : SendableObus registry []
  | cons {registry obu obus} (sendable : obu.Sendable registry) (others : SendableObus (registry.observeObu obu) obus) :
      SendableObus registry (obu :: obus)

theorem sendableSettled {registry : ParamDefinitionRegistry} {obus : List SequenceObu}
    (sendable : SendableObus registry obus) : SettledObus registry obus := by
  induction sendable with
  | nil => exact .nil
  | cons sendable _ ih => exact .cons sendable.settled ih

theorem sendableWritten {registry : ParamDefinitionRegistry} {obus : List SequenceObu}
    (sendable : SendableObus registry obus) : Writable (writeSequenceObus registry obus) := by
  induction sendable with
  | nil => exact ⟨[], rfl⟩
  | cons sendable _ ih =>
    exact (writableBind (octetsWriteSequenceObu _ _) (octetsWriteSequenceObus _ _)).mpr ⟨sendable.written, ih⟩

theorem sendableAppend {registry : ParamDefinitionRegistry} {xs ys : List SequenceObu} :
    SendableObus registry (xs ++ ys) ↔
      SendableObus registry xs ∧ SendableObus (xs.foldl ParamDefinitionRegistry.observeObu registry) ys := by
  induction xs generalizing registry with
  | nil => exact ⟨fun all => ⟨.nil, all⟩, fun both => both.2⟩
  | cons x xs ih =>
    constructor
    · intro all
      cases all with
      | cons first others => exact ⟨.cons first (ih.mp others).1, (ih.mp others).2⟩
    · intro ⟨front, back⟩
      cases front with
      | cons first others => exact .cons first (ih.mpr ⟨others, back⟩)

theorem sendableSilent {registry : ParamDefinitionRegistry} {obus : List SequenceObu}
    (each : ∀ obu ∈ obus, obu.Sendable registry ∧ obu.Silent) : SendableObus registry obus := by
  induction obus with
  | nil => exact .nil
  | cons obu obus ih =>
    obtain ⟨sendable, silent⟩ := each obu (by simp)
    refine .cons sendable ?_
    rw [silent]
    exact ih fun other among => each other (List.mem_cons_of_mem obu among)

theorem sendableInsert {registry : ParamDefinitionRegistry} {obus : List SequenceObu} {obu : SequenceObu}
    (sendable : SendableObus registry obus) (anywhere : ∀ registry, obu.Sendable registry) (silent : obu.Silent)
    (position : Nat) (inside : position ≤ obus.length) : SendableObus registry (obus.insertIdx position obu) := by
  obtain ⟨front, back, rfl, _, inserted⟩ := List.exists_of_modifyTailIdx (List.cons obu) inside
  obtain ⟨before, behind⟩ := sendableAppend.mp sendable
  change SendableObus registry ((front ++ back).modifyTailIdx position (List.cons obu))
  rw [inserted]
  refine sendableAppend.mpr ⟨before, .cons (anywhere _) ?_⟩
  rw [silent]
  exact behind

end Iamf.Wire
