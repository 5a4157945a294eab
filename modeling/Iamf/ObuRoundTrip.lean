import Iamf.SequenceEmit

/-! One OBU in any stream: what the writer appends, and what the reader makes of it in front
of anything. -/
namespace Iamf.Wire
open Bits BitString TapeCodec ReadTape WriteTape

namespace ObuHeader

/-- The header as it comes back. Absent trimming leaves no mark on the wire, and the type
says how it is read. -/
def normalized (header : ObuHeader) : ObuHeader :=
  header.withTypeSpecific <|
    match header.typeSpecific with
    | .trimming (some trim) => .trimming (some trim)
    | _ => if header.obuType.isAudioFrame then .trimming none else .reserved

theorem flagNormalized (header : ObuHeader) : header.normalized.trimmingStatusFlag = header.trimmingStatusFlag := by
  obtain ⟨obuType, redundant, typeSpecific, extension⟩ := header
  unfold normalized withTypeSpecific trimmingStatusFlag
  rcases typeSpecific with (_ | trim) | _ <;> cases obuType.isAudioFrame <;> rfl

theorem fieldsNormalized (header : ObuHeader) :
    writeFieldsAfterObuSize header.normalized = writeFieldsAfterObuSize header := by
  obtain ⟨obuType, redundant, typeSpecific, extension⟩ := header
  unfold normalized withTypeSpecific writeFieldsAfterObuSize
  rcases typeSpecific with (_ | trim) | _ <;> cases obuType.isAudioFrame <;> rfl

theorem gatesNormalized (header : ObuHeader) : validateHeader header.normalized = validateHeader header := by
  unfold validateHeader validateHeader.gates
  rw [flagNormalized]
  rfl

theorem normalNormalized {header : ObuHeader} (valid : validateHeader header = .ok ()) : Normal header.normalized where
  plain := by
    intro aliased
    change header.obuType.Aliased at aliased
    unfold validateHeader at valid
    cases kind : header.obuType with
    | reserved value =>
      rw [kind] at aliased valid
      simp only [if_pos (show value.toNat ≤ 23 ∨ value = 31 from aliased)] at valid
      cases valid
    | _ => rw [kind] at aliased; exact aliased
  trimmed := by
    intro trim kind
    unfold normalized withTypeSpecific at kind ⊢
    split at kind
    · cases kind; exact .inl rfl
    · split at kind
      · rename_i frame; exact .inr frame
      · cases kind
  untrimmed := by
    intro kind
    unfold normalized withTypeSpecific at kind ⊢
    split at kind
    · cases kind
    · split at kind
      · cases kind
      · rename_i other; simpa using other

end ObuHeader

theorem measuredNormalized {header : ObuHeader} {payloadLen : Nat} {obuSize : UInt32} {fields : Bytes}
    (measured : Measured header payloadLen obuSize fields) : Measured header.normalized payloadLen obuSize fields where
  valid := header.gatesNormalized.trans measured.valid
  fieldBytes := by rw [header.fieldsNormalized]; exact measured.fieldBytes
  size := measured.size
  bounded := measured.bounded

theorem frameBitsNormalized (header : ObuHeader) (obuSize : UInt32) (fields payload : Bytes) :
    frameBits header.normalized obuSize fields payload = frameBits header obuSize fields payload := by
  unfold frameBits
  rw [header.flagNormalized]
  rfl

theorem writeObuUnchanged {header : ObuHeader} {payload : Bytes} {e : Error} {w w' : BitWriter} (aligned : w.bitOff = 0)
    (failed : writeObu header payload w = .error e w') : w' = w := by
  cases measure : measureObu header payload.length with
  | error e' =>
    rw [writeObuFails aligned measure] at failed
    cases failed
    rfl
  | ok measured =>
    by_cases fiveBits : header.obuType.value.toNat < 32
    · rw [writeObuOk aligned fiveBits (measureObuOk.mp measure)] at failed
      cases failed
    · rw [writeObuWide aligned measure fiveBits] at failed
      cases failed
      rfl

theorem writeObuFrame {header : ObuHeader} {payload : Bytes} {w w' : BitWriter}
    (written : writeObu header payload w = .ok () w') : ∃ obu, w' = .ofBytes (w.out ++ obu) ∧
      FrameSource (bytesBits obu) header.normalized payload := by
  obtain ⟨aligned, fiveBits, obuSize, fields, measured, rfl⟩ := writeObuSource written
  obtain ⟨obu, octets⟩ := frameOctetsOfWrite header obuSize fields payload
  refine ⟨obu, by rw [octets]; exact BitWriter.appendBytes obu w aligned, ?_⟩
  rw [← octets, ← frameBitsNormalized]
  exact frameSourceOfWrite (ObuHeader.normalNormalized measured.valid) fiveBits (measuredNormalized measured)

theorem readObuFrame {T : Type} {frame suffix : Bytes} {header : ObuHeader} {payload : Bytes} {r : BitCursor}
    (source : FrameSource (bytesBits frame) header payload) (aligned : r.bitOff = 0)
    (there : r.data.drop r.bytePos = frame ++ suffix) (parse : ObuHeader → Reader T) :
    readObuWithHeader parse r = (orThrow (parsePayload (parse header) payload) >>= fun parsed =>
      pure ⟨header, parsed.1, parsed.2⟩) (advance (8 * frame.length) r) := by
  have split : rest r = bytesBits frame ++ bytesBits suffix := by
    change (bytesBits r.data).drop r.position = _
    rw [BitCursor.position, aligned, Nat.add_zero, bytesBitsDrop, there, bytesBitsAppend]
  have span := readsObuSpan source r (bytesBits suffix) (by rw [phaseIsBitOff, aligned]) split
  rw [bytesBitsLength] at span
  unfold readObuWithHeader
  rw [bindOf _ span]

theorem advanceBytes {r : BitCursor} {frame suffix : Bytes} (aligned : r.bitOff = 0)
    (there : r.data.drop r.bytePos = frame ++ suffix) : (BitCursor.advance (8 * frame.length) r).data = r.data ∧
      (BitCursor.advance (8 * frame.length) r).bytePos = r.bytePos + frame.length ∧
      (BitCursor.advance (8 * frame.length) r).bitOff = 0 := by
  have inside : 8 * frame.length ≤ (rest r).length := by
    have total := congrArg List.length there
    rw [List.length_drop, List.length_append] at total
    change _ ≤ r.rest.length
    rw [BitCursor.restLength, BitCursor.bitsRemaining, aligned]
    omega
  exact ⟨BitCursor.advanceData _ r, advanceAligned aligned inside⟩

theorem obuRoundTrip (header : ObuHeader) (payload : Bytes) {w : BitWriter} (aligned : w.isByteAligned = true) :
    (∀ e w', writeObu header payload w = .error e w' → w' = w) ∧
    ∀ w', writeObu header payload w = .ok () w' → ∃ obu, w' = .ofBytes (w.out ++ obu) ∧
      ∀ (suffix : Bytes) (r : BitCursor), r.bitOff = 0 → r.data.drop r.bytePos = obu ++ suffix →
        ∃ stop : BitCursor, stop.data = r.data ∧ stop.bytePos = r.bytePos + obu.length ∧ stop.bitOff = 0 ∧
          ∀ (T : Type) (parse : ObuHeader → Reader T),
            (∀ v trailing, parsePayload (parse header.normalized) payload = .ok (v, trailing) →
              readObuWithHeader parse r = .ok ⟨header.normalized, v, trailing⟩ stop) ∧
            ∀ e, parsePayload (parse header.normalized) payload = .error e →
              readObuWithHeader parse r = .error e stop := by
  refine ⟨fun e w' failed => writeObuUnchanged (beq_iff_eq.mp aligned) failed, fun w' written => ?_⟩
  obtain ⟨obu, appended, source⟩ := writeObuFrame written
  refine ⟨obu, appended, fun suffix r start there => ⟨BitCursor.advance (8 * obu.length) r, ?_⟩⟩
  obtain ⟨data, position, octet⟩ := advanceBytes start there
  refine ⟨data, position, octet, fun T parse => ⟨fun v trailing parsed => ?_, fun e refused => ?_⟩⟩
  · rw [readObuFrame source start there, parsed]
    rfl
  · rw [readObuFrame source start there, refused]
    rfl

theorem obuRoundTripFrame : ∃ obu stop, writeObu (.new .audioFrame) [1, 2, 3] (.ofBytes [9]) = .ok () (.ofBytes (9 :: obu)) ∧
    readObuWithHeader (fun _ => readTrailing) ⟨9 :: obu ++ [7], 1, 0, by decide, by simp⟩ =
      .ok ⟨⟨.audioFrame, false, .trimming none, none⟩, [1, 2, 3], []⟩ stop ∧ stop.bytePos = 1 + obu.length := by
  have written : writeObu (.new .audioFrame) [1, 2, 3] (.ofBytes [9]) = .ok () (.ofBytes [9, 0x28, 3, 1, 2, 3]) := by
    rfl
  obtain ⟨obu, appended, reads⟩ := (obuRoundTrip (.new .audioFrame) [1, 2, 3] (w := .ofBytes [9]) rfl).2 _ written
  have same : obu = [0x28, 3, 1, 2, 3] := by
    have out := congrArg BitWriter.out appended
    exact (List.cons.inj out).2.symm
  subst same
  obtain ⟨stop, _, position, _, parsed⟩ := reads [7] ⟨[9, 0x28, 3, 1, 2, 3, 7], 1, 0, by decide, by decide⟩ rfl rfl
  exact ⟨_, stop, written, (parsed _ fun _ => readTrailing).1 _ _ (by decide +kernel), position⟩

end Iamf.Wire
