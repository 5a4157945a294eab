import Iamf.EncodingWriter

/-! Descriptors can be written together when each of them fits an OBU of its own, and then a sink
that takes everything lets an encoder start. -/
namespace Iamf.Wire
open Bits BitString TapeCodec

def Writable (g : Writer Unit) : Prop := ∃ bytes, finishWriter g = .ok bytes

theorem writableBind {g h : Writer Unit} (first : Octets g) (second : Octets h) :
    Writable (g >>= fun _ => h) ↔ Writable g ∧ Writable h := by
  constructor
  · intro ⟨bytes, ok⟩
    obtain ⟨a, b, left, right, _⟩ := (finishWriterBind first second).mp ok
    exact ⟨⟨a, left⟩, ⟨b, right⟩⟩
  · intro ⟨⟨a, left⟩, ⟨b, right⟩⟩
    exact ⟨a ++ b, (finishWriterBind first second).mpr ⟨a, b, left, right, rfl⟩⟩

section

variable {T : Type} {g : T → Writer Unit}

theorem octetsEach (octets : ∀ v, Octets (g v)) (vs : List T) : Octets (writeEach g vs) := by
  induction vs with
  | nil => exact octetsPure
  | cons v vs ih => exact octetsBind (octets v) ih

theorem writableEach (octets : ∀ v, Octets (g v)) (vs : List T) :
    Writable (writeEach g vs) ↔ ∀ v ∈ vs, Writable (g v) := by
  induction vs with
  | nil => exact iff_of_true ⟨[], rfl⟩ (by simp)
  | cons v vs ih =>
    rw [List.forall_mem_cons, ← ih]
    exact writableBind (octets v) (octetsEach octets vs)

theorem eachLength (octets : ∀ v, Octets (g v)) {limit : Nat}
    (each : ∀ v bytes, finishWriter (g v) = .ok bytes → bytes.length ≤ limit) {vs : List T} {bytes : Bytes}
    (ok : finishWriter (writeEach g vs) = .ok bytes) : bytes.length ≤ vs.length * limit := by
  induction vs generalizing bytes with
  | nil =>
    cases ok
    exact Nat.zero_le _
  | cons v vs ih =>
    obtain ⟨a, b, first, rest, rfl⟩ := (finishWriterBind (octets v) (octetsEach octets vs)).mp ok
    have front := each v a first
    have behind := ih rest
    rw [List.length_append, List.length_cons, Nat.succ_mul]
    omega

end

def payloadMax : Nat := entireObuSizeMax - 4

def Fits (g : Writer Unit) : Prop := ∃ payload, finishWriter g = .ok payload ∧ payload.length ≤ payloadMax

theorem payloadFits {n : Nat} : n + minimalLen n + 1 ≤ entireObuSizeMax ↔ n ≤ payloadMax := by
  unfold minimalLen payloadMax entireObuSizeMax
  split_ifs <;> omega

inductive DescriptorType : ObuType → Prop where
  | iaSequenceHeader : DescriptorType .iaSequenceHeader
  | codecConfig : DescriptorType .codecConfig
  | audioElement : DescriptorType .audioElement
  | mixPresentation : DescriptorType .mixPresentation

theorem descriptorHeader {obuType : ObuType} (descriptor : DescriptorType obuType) :
    obuType.value.toNat < 32 ∧ validateHeader (.new obuType) = .ok () ∧
      finishWriter (writeFieldsAfterObuSize (.new obuType)) = .ok [] := by
  cases descriptor <;> exact ⟨by decide, rfl, rfl⟩

section

variable {T : Type} {obuType : ObuType} {v : T} {write : T → Writer Unit}

theorem descriptorWritable (descriptor : DescriptorType obuType) : Writable (writeObuWith (.new (.new obuType) v) write) ↔
    Fits (write v) := by
  obtain ⟨fiveBits, valid, fields⟩ := descriptorHeader descriptor
  constructor
  · intro written
    obtain ⟨bytes, ok⟩ := written
    obtain ⟨payload, encoded, framed⟩ := writeObuWithHeaderFinished.mp ok
    obtain ⟨_, obuSize, fields', measured, _⟩ := writeObuFinished.mp framed
    cases fields.symm.trans measured.fieldBytes
    have size := measured.size
    have bounded := measured.bounded
    simp only [Obu.new, List.append_nil, List.length_nil, Nat.zero_add] at size
    rw [size] at bounded
    exact ⟨payload, encoded, payloadFits.mp bounded⟩
  · intro fits
    obtain ⟨payload, encoded, short⟩ := fits
    have small : payload.length ≤ 2 ^ 21 := le_trans short (by decide)
    have size : (UInt32.ofNat payload.length).toNat = payload.length := countFits (le_trans small (by decide))
    have measured : Measured (.new obuType) (payload ++ []).length (UInt32.ofNat payload.length) [] :=
      ⟨valid, fields, by rw [size, List.append_nil, List.length_nil, Nat.zero_add], by rw [size]; exact payloadFits.mpr short⟩
    obtain ⟨frame, octets⟩ := frameOctetsOfWrite (.new obuType) (UInt32.ofNat payload.length) [] (payload ++ [])
    have framed := writeObuFinished.mpr ⟨fiveBits, _, _, measured, octets.symm⟩
    exact ⟨frame, writeObuWithHeaderFinished.mpr ⟨payload, encoded, framed⟩⟩

theorem obuLength {obu : Obu T} {bytes : Bytes} (ok : finishWriter (writeObuWith obu write) = .ok bytes) :
    bytes.length ≤ entireObuSizeMax := by
  obtain ⟨payload, encoded, framed⟩ := writeObuWithHeaderFinished.mp ok
  obtain ⟨_, obuSize, fields, measured, octets⟩ := writeObuFinished.mp framed
  have length := congrArg List.length octets
  have size := measured.size
  have bounded := measured.bounded
  simp only [frameBits, firstByteBits, List.length_append, bitsOfLength, ulebBitsLength, bytesBitsLength] at length
  simp only [List.length_append] at size
  omega

end

namespace DescriptorSet

structure Fit (set : DescriptorSet) : Prop where
  header : Fits (writeIaSequenceHeader set.sequenceHeader)
  configs : ∀ config ∈ set.codecConfigs, Fits (writeCodecConfig config)
  elements : ∀ element ∈ set.audioElements, Fits (writeAudioElement element)
  presentations : ∀ presentation ∈ set.mixPresentations, Fits (writeMixPresentation presentation)

variable (set : DescriptorSet)

theorem written : Writable (writeDescriptors set) ↔ set.Fit := by
  have octets {T : Type} (obuType : ObuType) (write : T → Writer Unit) (v : T) :
      Octets (writeObuWith (.new (.new obuType) v) write) := octetsWriteObuWithHeader _ _
  have sorted {T : Type} (id : T → UInt32) (items : List T) (item : T) : item ∈ sortedById id items ↔ item ∈ items :=
    List.mem_mergeSort
  unfold writeDescriptors
  rw [writableBind (octets _ _ _) (octetsBind (octetsEach (octets _ _) _) (octetsBind (octetsEach (octets _ _) _)
      (octetsEach (octets _ _) _))),
    writableBind (octetsEach (octets _ _) _) (octetsBind (octetsEach (octets _ _) _) (octetsEach (octets _ _) _)),
    writableBind (octetsEach (octets _ _) _) (octetsEach (octets _ _) _), writableEach (octets _ _),
    writableEach (octets _ _), writableEach (octets _ _), descriptorWritable .iaSequenceHeader]
  simp only [descriptorWritable .codecConfig, descriptorWritable .audioElement, descriptorWritable .mixPresentation,
    sortedConfigs, sortedElements, sorted]
  constructor
  · intro ⟨header, configs, elements, presentations⟩
    exact ⟨header, configs, elements, presentations⟩
  · intro fit
    exact ⟨fit.header, fit.configs, fit.elements, fit.presentations⟩

def count : Nat := 1 + set.codecConfigs.length + set.audioElements.length + set.mixPresentations.length

theorem writtenLength {bytes : Bytes} (ok : finishWriter (writeDescriptors set) = .ok bytes) :
    bytes.length ≤ set.count * entireObuSizeMax := by
  have octets {T : Type} (obuType : ObuType) (write : T → Writer Unit) (v : T) :
      Octets (writeObuWith (.new (.new obuType) v) write) := octetsWriteObuWithHeader _ _
  unfold writeDescriptors at ok
  obtain ⟨a, others, header, behind, rfl⟩ := (finishWriterBind (octets _ _ _) (octetsBind (octetsEach (octets _ _) _)
    (octetsBind (octetsEach (octets _ _) _) (octetsEach (octets _ _) _)))).mp ok
  obtain ⟨b, rest, configs, last, rfl⟩ := (finishWriterBind (octetsEach (octets _ _) _)
    (octetsBind (octetsEach (octets _ _) _) (octetsEach (octets _ _) _))).mp behind
  obtain ⟨c, d, elements, presentations, rfl⟩ := (finishWriterBind (octetsEach (octets _ _) _)
    (octetsEach (octets _ _) _)).mp last
  have first := obuLength header
  have second := eachLength (octets _ _) (fun _ _ => obuLength) configs
  have third := eachLength (octets _ _) (fun _ _ => obuLength) elements
  have fourth := eachLength (octets _ _) (fun _ _ => obuLength) presentations
  rw [sortedConfigs, sortedById, List.length_mergeSort] at second
  rw [sortedElements, sortedById, List.length_mergeSort] at third
  simp only [List.length_append, count, Nat.add_mul]
  omega

end DescriptorSet

theorem startFits {W : Sink} (all : W.AcceptsAll) {encoder : Encoder} (sink : W.State)
    (few : encoder.descriptors.count * entireObuSizeMax ≤ u64Max) :
    (∃ w s, encoder.start sink = .ok w s) ↔ encoder.descriptors.Fit := by
  rw [← encoder.descriptors.written]
  have pushed := SequenceWriter.pushDescriptorsPushed encoder.descriptors (SequenceWriter.new sink : SequenceWriter W)
  unfold Encoder.start
  generalize SequenceWriter.pushDescriptors encoder.descriptors (SequenceWriter.new sink) = r at pushed
  cases pushed with
  | refused _ _ _ _ _ cause =>
    refine iff_of_false (by simp) fun ⟨bytes, ok⟩ => ?_
    exact cause rfl bytes ok
  | accepted _ encodes => exact iff_of_true ⟨_, _, rfl⟩ ⟨_, encodes⟩
  | failed _ _ _ _ _ _ _ cause => exact absurd all cause
  | overflowed _ encodes inside _ exceeded =>
    have total := encoder.descriptors.writtenLength encodes
    have start : (SequenceWriter.new sink : SequenceWriter W).bytesWritten = 0 := rfl
    omega

end Iamf.Wire
