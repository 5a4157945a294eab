import Iamf.Payload

/-! The Audio Frame OBU: a substream id, explicit or carried by the OBU type, and coded
audio that is never looked into. -/
namespace Iamf.Wire
open Bits BitString TapeCodec

def maxImplicitSubstreamId : UInt32 := 17
def audioFrameId0Type : Nat := 6
def audioFrameExplicitType : UInt8 := 5

structure AudioFrame where
  substreamId : UInt32
  payload : Bytes
  deriving DecidableEq, Repr

def obuTypeFor (substreamId : UInt32) : ObuType :=
  if substreamId > maxImplicitSubstreamId then .audioFrame
  else
    let value := substreamId.toNat + audioFrameId0Type
    if value < 256 then .fromValue (UInt8.ofNat value) else .audioFrame

def substreamIdFor (obuType : ObuType) : Option UInt32 :=
  let value := obuType.value.toNat
  if 6 ≤ value ∧ value ≤ 23 then some (UInt32.ofNat (value - audioFrameId0Type)) else none

namespace AudioFrame

def intoObu (frame : AudioFrame) (trimming : Option Trimming) : Obu AudioFrame :=
  .new ((ObuHeader.new (obuTypeFor frame.substreamId)).withTypeSpecific (.trimming trimming)) frame

def validate (frame : AudioFrame) (obuType : ObuType) : List Finding :=
  findingIf (obuType == .audioFrame && frame.substreamId ≤ maxImplicitSubstreamId) (.at "audio_substream_id"
    "audio_substream_id {} is 17 or less, so this frame could have used the implicit OBU type {} instead of type 5"
    [.number frame.substreamId.toNat, .number (obuTypeFor frame.substreamId).value.toNat])

def validateAgainstElement (frame : AudioFrame) (declaredSubstreamIds : List UInt32) : List Finding :=
  findingIf (!declaredSubstreamIds.contains frame.substreamId) (.at "audio_substream_id"
    "audio_substream_id {} is not among the audio_substream_ids the referenced Audio Element declares"
    [.number frame.substreamId.toNat])

end AudioFrame

section

variable [UlebForm]

def readSubstreamId (header : ObuHeader) : Reader UInt32 := do
  let start ← bytePosition
  match substreamIdFor header.obuType with
  | some implicit => pure implicit
  | none => do
    ensure (header.obuType.value == audioFrameExplicitType) (inputError .notAnAudioFrame start)
    readUleb128

def readAudioFrame (header : ObuHeader) : Reader AudioFrame := do
  let substreamId ← readSubstreamId header
  let payload ← readTrailing
  pure ⟨substreamId, payload⟩

end

def writeSubstreamId (header : ObuHeader) (frame : AudioFrame) : Writer Unit :=
  match substreamIdFor header.obuType with
  | some implicit => ensure (implicit == frame.substreamId) ⟨.substreamIdMismatch, .field "audio_substream_id"⟩
  | none => do
    ensure (header.obuType.value == audioFrameExplicitType) ⟨.notAnAudioFrame, .field "obu_type"⟩
    writeUleb128Minimal frame.substreamId

def writeAudioFrame (header : ObuHeader) (frame : AudioFrame) : Writer Unit := do
  writeSubstreamId header frame
  writeBytes frame.payload

def validateTemporalUnit (frames : List (Obu AudioFrame)) : Except Error Unit :=
  match frames with
  | [] => .ok ()
  | first :: _ => each first [] frames
where
  each (first : Obu AudioFrame) (seen : List UInt32) : List (Obu AudioFrame) → Except Error Unit
    | [] => .ok ()
    | frame :: rest =>
      if frame.header.typeSpecific ≠ first.header.typeSpecific then
        .error ⟨.temporalUnitTrimMismatch, .field "obu_trimming_status_flag"⟩
      else if seen.contains frame.payload.substreamId then
        .error ⟨.duplicateSubstreamId, .field "audio_substream_id"⟩
      else each first (seen ++ [frame.payload.substreamId]) rest

theorem validateTemporalUnitEach {first : Obu AudioFrame} {seen : List UInt32} {frames : List (Obu AudioFrame)} :
    validateTemporalUnit.each first seen frames = .ok () ↔
      (∀ frame ∈ frames, frame.header.typeSpecific = first.header.typeSpecific) ∧
      (frames.map (·.payload.substreamId)).Nodup ∧ ∀ frame ∈ frames, frame.payload.substreamId ∉ seen := by
  induction frames generalizing seen with
  | nil => simp [validateTemporalUnit.each]
  | cons frame rest ih =>
    unfold validateTemporalUnit.each
    split_ifs with other known
    · simp [other]
    · simp only [false_iff]
      rintro ⟨_, _, fresh⟩
      exact fresh frame (by simp) (by simpa using known)
    · rw [ih]
      have same : frame.header.typeSpecific = first.header.typeSpecific := by simpa using other
      have new : frame.payload.substreamId ∉ seen := by simpa using known
      simp only [List.mem_cons, forall_eq_or_imp, List.map_cons, List.nodup_cons, List.mem_append,
        List.not_mem_nil, or_false, not_or, List.mem_map, not_exists, not_and, same, new, true_and,
        not_false_eq_true]
      constructor
      · rintro ⟨kinds, nodup, fresh⟩
        exact ⟨kinds, ⟨fun other mem => (fresh other mem).2, nodup⟩, fun other mem => (fresh other mem).1⟩
      · rintro ⟨kinds, ⟨apart, nodup⟩, fresh⟩
        exact ⟨kinds, nodup, fun other mem => ⟨fresh other mem, apart other mem⟩⟩

theorem validateTemporalUnitOk {frames : List (Obu AudioFrame)} : validateTemporalUnit frames = .ok () ↔
    (∀ frame ∈ frames, ∀ other ∈ frames, frame.header.typeSpecific = other.header.typeSpecific) ∧
      (frames.map (·.payload.substreamId)).Nodup := by
  cases frames with
  | nil => simp [validateTemporalUnit]
  | cons first rest =>
    change validateTemporalUnit.each first [] (first :: rest) = .ok () ↔ _
    rw [validateTemporalUnitEach]
    constructor
    · rintro ⟨kinds, nodup, _⟩
      exact ⟨fun frame mem other mem' => (kinds frame mem).trans (kinds other mem').symm, nodup⟩
    · rintro ⟨kinds, nodup⟩
      exact ⟨fun frame mem => kinds frame mem first (by simp), nodup, by simp⟩

theorem pairedSubstreamId (header : ObuHeader) (frame : AudioFrame) :
    Paired 0 0 (writeSubstreamId header frame) (readSubstreamId header) frame.substreamId := by
  unfold writeSubstreamId readSubstreamId
  cases kind : substreamIdFor header.obuType with
  | some implicit =>
    refine pairedPosition fun _ => ?_
    by_cases same : implicit = frame.substreamId
    · subst same
      simp only [beq_self_eq_true, ensureTrue]
      exact pairedPure 0 _
    · exact .inl (refusesEnsure (by simpa using same))
  | none =>
    by_cases explicit : header.obuType.value = audioFrameExplicitType
    · simp only [explicit, beq_self_eq_true, ensureTrue]
      exact pairedPosition fun _ => pairedUleb128 0 frame.substreamId
    · exact .inl (refusesBind _ (refusesEnsure (by simpa using explicit)))

theorem audioFrameWritesBack (header : ObuHeader) : WritesBack (readAudioFrame header) (writeAudioFrame header)
    fun _ trailing => trailing = [] := by
  rintro frame bytes trailing rfl ok
  rw [List.append_nil]
  refine parsePayloadLast ?_ ok
  refine pairedLastBind (pairedSubstreamId header frame) ?_
  exact pairedLastReturn (pairedLastTrailing frame.payload) rfl

section

variable [UlebForm]

theorem consumesSubstreamId (header : ObuHeader) : Consumes (readSubstreamId header) fun id bs =>
    ∀ payload, Rewrites Canonical (writeSubstreamId header ⟨id, payload⟩) bs := by
  refine consumesBind consumesPosition fun start bs empty => ?_
  subst empty
  unfold writeSubstreamId
  simp only [List.nil_append]
  cases substreamIdFor header.obuType with
  | some implicit =>
    refine consumesPure fun payload => ?_
    simp only [beq_self_eq_true, ensureTrue]
    exact rewritesPure
  | none =>
    refine consumesEnsure fun explicit => ?_
    exact consumesMono consumesUleb128 fun id bs rewrites payload => rewritesGuard explicit rewrites

theorem audioFrameReadsBack (header : ObuHeader) : ReadsBack Canonical (readAudioFrame header) (writeAudioFrame header)
    fun _ trailing => trailing = [] := by
  intro payload frame trailing ok
  obtain ⟨none, id, rest, head, rfl⟩ := parsePayloadTrailing.mp ok
  have consumed : Consumes (readAudioFrame header) fun frame bs =>
      Rewrites Canonical (writeAudioFrame header frame) bs ∧ True := by
    refine consumesBind (consumesSubstreamId header) fun id bs first => ?_
    refine consumesBind consumesTrailing fun payload cs second => consumesPure ⟨?_, trivial⟩
    subst second
    rw [List.append_nil]
    exact rewritesBind (first payload) (rewritesBytes payload)
  obtain ⟨_, bytes⟩ := parsePayloadRewrites consumed ok
  exact ⟨none, bytes⟩

end

end Iamf.Wire
