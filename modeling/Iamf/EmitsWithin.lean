import Iamf.DescriptorFits
import Iamf.EncoderRoundTrip

/-! Writers that are never refused, and how many octets they take at most. -/
namespace Iamf.Wire
open Bits BitString TapeCodec ReadTape WriteTape

def EmitsWithin (limit : Nat) (g : Writer Unit) : Prop :=
  ∃ bytes : Bytes, bytes.length ≤ limit ∧ Emits g (bytesBits bytes)

theorem withinFinished {limit : Nat} {g : Writer Unit} (within : EmitsWithin limit g) :
    ∃ bytes, finishWriter g = .ok bytes ∧ bytes.length ≤ limit := by
  obtain ⟨bytes, short, emits⟩ := within
  exact ⟨bytes, finishWriterOk rfl (emits .new), short⟩

theorem withinBits {bits : List Bool} {g : Writer Unit} {n limit : Nat} (octets : bits.length = 8 * n)
    (emits : Emits g bits) (short : n ≤ limit) : EmitsWithin limit g := by
  have packed := packBitsExact n bits octets
  have length := congrArg List.length packed
  rw [bytesBitsLength, octets] at length
  exact ⟨packBits n bits, by omega, packed.symm ▸ emits⟩

theorem withinPure (limit : Nat) : EmitsWithin limit (pure ()) := ⟨[], Nat.zero_le _, emitsPure⟩

theorem withinBind {m n : Nat} {g : Writer Unit} {k : Unit → Writer Unit} (first : EmitsWithin m g)
    (next : EmitsWithin n (k ())) : EmitsWithin (m + n) (g >>= k) := by
  obtain ⟨front, short, emits⟩ := first
  obtain ⟨back, short', emits'⟩ := next
  refine ⟨front ++ back, by rw [List.length_append]; omega, ?_⟩
  rw [bytesBitsAppend]
  exact emitsBind emits emits'

theorem withinMono {m n : Nat} {g : Writer Unit} (within : EmitsWithin m g) (le : m ≤ n) : EmitsWithin n g := by
  obtain ⟨bytes, short, emits⟩ := within
  exact ⟨bytes, Nat.le_trans short le, emits⟩

theorem withinUleb128 (v : UInt32) : EmitsWithin 5 (writeUleb128Minimal v) := by
  refine withinBits (ulebBitsLength _ _) (emitsUleb128 v) ?_
  unfold minimalLen
  split_ifs <;> omega

theorem withinI16 (v : Int16) : EmitsWithin 2 (writeSigned v.toInt 16) := by
  obtain ⟨bits, length, emits⟩ := emitsI16 v
  exact withinBits length emits (Nat.le_refl _)

theorem withinOctet (v : UInt8) : EmitsWithin 1 (writeUnsigned v.toNat 8) :=
  withinBits (bitsOfLength 8 _) (emitsUnsigned (by omega) v.toNat_lt) (Nat.le_refl _)

theorem withinBytes (bytes : Bytes) : EmitsWithin bytes.length (writeBytes bytes) :=
  ⟨bytes, Nat.le_refl _, emitsBytes bytes⟩

theorem withinEach {T : Type} {g : T → Writer Unit} {limit : Nat} {vs : List T}
    (each : ∀ v ∈ vs, EmitsWithin limit (g v)) : EmitsWithin (vs.length * limit) (writeEach g vs) := by
  induction vs with
  | nil => exact withinPure _
  | cons v vs ih =>
    rw [List.length_cons, Nat.succ_mul, Nat.add_comm]
    exact withinBind (each v (by simp)) (ih fun u among => each u (List.mem_cons_of_mem v among))

theorem withinMixGain (data : MixGainParameterData) :
    EmitsWithin (5 + (2 + (2 + (2 + 1)))) (writeParameterData .mixGain (.mixGain data)) := by
  refine withinBind (withinUleb128 _) ?_
  cases data with
  | step first => exact withinMono (withinI16 first) (by omega)
  | linear first last => exact withinMono (withinBind (withinI16 first) (withinI16 last)) (by omega)
  | bezier first last control time =>
    exact withinBind (withinI16 first) (withinBind (withinI16 last)
      (withinBind (withinI16 control) (withinOctet time)))

theorem withinDemixing {data : DemixingInfoParameterData} (mode : data.dmixpMode.toNat < 2 ^ 3)
    (reserved : data.reserved.toNat < 2 ^ 5) : EmitsWithin 1 (writeParameterData .demixing (.demixing data)) := by
  have emits := emitsBind (emitsUnsigned (by omega) mode) (k := fun _ => writeUnsigned data.reserved.toNat 5)
    (emitsUnsigned (by omega) reserved)
  refine withinBits (n := 1) ?_ emits (Nat.le_refl _)
  rw [List.length_append, bitsOfLength, bitsOfLength]

theorem withinGains (flag : UInt32) (index : Nat) (gains : Bytes) :
    EmitsWithin gains.length (writeGains flag index gains) := by
  induction gains generalizing index with
  | nil => exact withinPure _
  | cons gain gains ih =>
    rw [List.length_cons, Nat.add_comm]
    refine withinBind ?_ (ih _)
    unfold writeGain
    split
    · exact withinOctet gain
    · exact withinPure _

theorem withinReconGain (element : ReconGainElement) :
    EmitsWithin (1 * (5 + 12)) (writeParameterData (.reconGain [true]) (.reconGain ⟨[some element]⟩)) := by
  change EmitsWithin ([(some element, true)].length * (5 + 12)) (writeEach writeReconGainLayer [(some element, true)])
  refine withinEach fun layer among => ?_
  rw [List.mem_singleton.mp among]
  have gains := withinGains element.reconGainFlag 0 element.reconGain.val
  rw [element.reconGain.property] at gains
  exact withinBind (withinUleb128 _) gains

theorem withinRaw {context : ParameterDataContext} (bytes : Bytes) (small : bytes.length ≤ u32Max) :
    EmitsWithin (5 + bytes.length) (writeParameterData context (.raw bytes)) := by
  refine withinBind ?_ (withinBytes bytes)
  unfold writeCount
  rw [decide_eq_true small, ensureTrue, pure_bind]
  exact withinUleb128 _

theorem withinBehindId {context : ParameterDataContext} (v : ParameterBlock) {fields : BlockDurationFields} {n : Nat}
    (durations : v.durationFields = some fields) (constant : fields.constantSubblockDuration ≠ 0)
    (each : ∀ subblock ∈ v.subblocks, subblock.subblockDuration = none ∧
      EmitsWithin n (writeParameterData context subblock.data)) :
    EmitsWithin (5 + (5 + 0) + v.subblocks.length * n)
      (writeBlockDurations v >>= fun _ => writeEach (writeSubblock context) v.subblocks) := by
  have counted : EmitsWithin (5 + (5 + 0)) (writeBlockDurations v) := by
    unfold writeBlockDurations writeNumSubblocks
    rw [durations]
    simp only
    rw [if_neg constant]
    exact withinBind (withinUleb128 _) (withinBind (withinUleb128 _) (withinPure 0))
  refine withinBind counted (withinEach fun subblock among => ?_)
  obtain ⟨none, data⟩ := each subblock among
  unfold writeSubblock writeSubblockDuration
  rw [none, pure_bind]
  exact data

theorem withinBlock {definition : ParamDefinition} {context : ParameterDataContext} {block : ParameterBlock}
    {limit : Nat}
    (valid : validateParameterBlock definition context block = .ok ()) (behind : EmitsWithin limit
      (writeBlockDurations block >>= fun _ => writeEach (writeSubblock context) block.subblocks)) :
    EmitsWithin (5 + limit) (writeParameterBlock definition context block) := by
  unfold writeParameterBlock
  rw [orThrowOf _ valid]
  exact withinBind (withinUleb128 _) behind

theorem withinExtension (bytes : Bytes) (small : bytes.length ≤ u32Max) :
    EmitsWithin (5 + bytes.length) (writeExtension (some bytes)) := by
  unfold writeExtension
  simp only
  rw [decide_eq_true small, ensureTrue, pure_bind]
  exact withinBind (withinUleb128 _) (withinBytes bytes)

theorem framedWritable {header : ObuHeader} {fields payload : Bytes} (fiveBits : header.obuType.value.toNat < 32)
    (valid : validateHeader header = .ok ()) (fieldBytes : finishWriter (writeFieldsAfterObuSize header) = .ok fields)
    (short : fields.length + payload.length ≤ payloadMax) : Writable (writeObu header payload) := by
  have small : fields.length + payload.length ≤ 2 ^ 21 := le_trans short (by decide)
  have size : (UInt32.ofNat (fields.length + payload.length)).toNat = fields.length + payload.length :=
    countFits (le_trans small (by decide))
  have measured : Measured header payload.length (UInt32.ofNat (fields.length + payload.length)) fields :=
    ⟨valid, fieldBytes, size, by rw [size]; exact payloadFits.mpr short⟩
  obtain ⟨frame, octets⟩ := frameOctetsOfWrite header (UInt32.ofNat (fields.length + payload.length)) fields payload
  exact ⟨frame, writeObuFinished.mpr ⟨fiveBits, _, _, measured, octets.symm⟩⟩

theorem substreamIdForType (id : UInt32) : substreamIdFor (obuTypeFor id) = some id ∨
    maxImplicitSubstreamId < id ∧ obuTypeFor id = .audioFrame := by
  have implicit : ∀ n : Fin 18, substreamIdFor (obuTypeFor (UInt32.ofNat n.val)) = some (UInt32.ofNat n.val) := by
    decide
  by_cases few : id.toNat < 18
  · exact .inl (by simpa using implicit ⟨id.toNat, few⟩)
  · have above : maxImplicitSubstreamId < id := UInt32.lt_iff_toNat_lt.mpr (show 17 < id.toNat by omega)
    exact .inr ⟨above, if_pos above⟩

theorem withinSubstreamId (frame : AudioFrame) (trimming : Option Trimming) :
    EmitsWithin 5 (writeSubstreamId (frame.intoObu trimming).header frame) := by
  have type : (frame.intoObu trimming).header.obuType = obuTypeFor frame.substreamId := rfl
  unfold writeSubstreamId
  rw [type]
  rcases substreamIdForType frame.substreamId with implicit | ⟨_, explicit⟩
  · rw [implicit]
    simp only [beq_self_eq_true, ensureTrue]
    exact withinPure 5
  · rw [explicit]
    exact withinUleb128 _

theorem withinTrimming (frame : AudioFrame) (trimming : Option Trimming) :
    EmitsWithin 10 (writeFieldsAfterObuSize (frame.intoObu trimming).header) := by
  cases trimming with
  | none => exact withinPure 10
  | some trim =>
    exact withinBind (withinBind (k := fun _ => writeUleb128Minimal trim.atStart) (withinUleb128 trim.atEnd)
      (withinUleb128 trim.atStart)) (withinPure 0)

theorem frameWritable (frame : AudioFrame) (trimming : Option Trimming) (short : 15 + frame.payload.length ≤ payloadMax) :
    Writable (writeObuWithHeader (frame.intoObu trimming) writeAudioFrame) := by
  obtain ⟨payload, encoded, small⟩ := withinFinished
    (withinBind (k := fun _ => writeBytes frame.payload) (withinSubstreamId frame trimming) (withinBytes frame.payload))
  obtain ⟨fields, fieldBytes, few⟩ := withinFinished (withinTrimming frame trimming)
  have type : (obuTypeFor frame.substreamId).value.toNat < 32 ∧
      validateHeader (frame.intoObu trimming).header = .ok () := by
    change _ ∧ validateHeader ⟨obuTypeFor frame.substreamId, false, .trimming trimming, none⟩ = .ok ()
    rcases obuTypeForIs frame.substreamId with ⟨_, same⟩ | ⟨implicit, same⟩ <;> rw [same]
    · exact ⟨by decide, by cases trimming <;> rfl⟩
    · have implicits : ∀ id : Fin 18, (ObuType.audioFrameId id).value.toNat < 32 ∧
          (ObuType.audioFrameId id).isAudioFrame = true := by decide
      refine ⟨(implicits implicit).1, ?_⟩
      change validateHeader.gates _ = .ok ()
      unfold validateHeader.gates
      simp [(implicits implicit).2]
  obtain ⟨bytes, framed⟩ : Writable (writeObu (frame.intoObu trimming).header (payload ++ [])) :=
    framedWritable type.1 type.2 fieldBytes (by rw [List.append_nil]; omega)
  exact ⟨bytes, writeObuWithHeaderFinished.mpr ⟨payload, encoded, framed⟩⟩

end Iamf.Wire
