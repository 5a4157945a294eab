import Iamf.Payload

/-! The IA Sequence Header, and the Temporal Delimiter, whose payload is empty. -/
namespace Iamf.Wire
open Bits BitString TapeCodec

def iaCode : UInt32 := 0x69616d66
def profileCount : UInt8 := 3

structure IaSequenceHeader where
  iaCode : UInt32
  primaryProfile : UInt8
  additionalProfile : UInt8
  trailing : Bytes
  deriving DecidableEq, Repr

namespace IaSequenceHeader

def new (primaryProfile additionalProfile : UInt8) : IaSequenceHeader :=
  ⟨Wire.iaCode, primaryProfile, additionalProfile, []⟩

def validate (h : IaSequenceHeader) : List Finding :=
  findingIf (h.iaCode != Wire.iaCode) (.at "ia_code" "ia_code is {}, expected {} (\"iamf\")"
    [.hex h.iaCode.toNat, .hex Wire.iaCode.toNat]) ++
  findingIf (h.primaryProfile ≥ profileCount) (.at "primary_profile"
    "primary_profile is {}, and libiamf's `_valid_profile` requires it below IAMF_PROFILE_COUNT ({})"
    [.number h.primaryProfile.toNat, .number profileCount.toNat]) ++
  findingIf (h.additionalProfile < h.primaryProfile) (.at "additional_profile"
    "additional_profile is {}, below primary_profile {}; libiamf rejects the whole sequence"
    [.number h.additionalProfile.toNat, .number h.primaryProfile.toNat])

end IaSequenceHeader

def readIaSequenceHeaderBody : Reader IaSequenceHeader := do
  let iaCode ← readU32 32
  let primaryProfile ← readU8 8
  let additionalProfile ← readU8 8
  pure ⟨iaCode, primaryProfile, additionalProfile, []⟩

def readIaSequenceHeader : Reader IaSequenceHeader := do
  let header ← readIaSequenceHeaderBody
  let trailing ← readTrailing
  pure { header with trailing := trailing }

-- other foreign values are left to `validate`; this one makes the whole sequence unreadable
def writeIaSequenceHeader (v : IaSequenceHeader) : Writer Unit := do
  ensure (!(v.additionalProfile < v.primaryProfile)) ⟨.additionalProfileBelowPrimary, .field "additional_profile"⟩
  writeUnsigned v.iaCode.toNat 32
  writeUnsigned v.primaryProfile.toNat 8
  writeUnsigned v.additionalProfile.toNat 8
  writeBytes v.trailing

structure TemporalDelimiter where
  deriving DecidableEq, Repr

def readTemporalDelimiter : Reader TemporalDelimiter := pure ⟨⟩

def writeTemporalDelimiter (_ : TemporalDelimiter) : Writer Unit := pure ()

theorem sequenceHeaderWritesBack :
    WritesBack readIaSequenceHeaderBody writeIaSequenceHeader fun v _ => v.trailing = [] := by
  rintro ⟨code, primary, additional, _⟩ bytes trailing rfl ok
  refine parsePayloadPaired ?_ ok trailing
  refine pairedGuard fun _ => ?_
  refine pairedBind (pairedU32 0 code (by omega)) ?_
  refine pairedBind (pairedU8 _ primary (by omega)) ?_
  refine pairedBind (pairedPhase (pairedU8 _ additional (by omega)) (show _ = 0 % 8 from rfl)) ?_
  exact pairedEmpty 0 _

theorem consumesSequenceHeader (canonical : Prop) : Consumes readIaSequenceHeaderBody fun v bs =>
    (¬ v.additionalProfile < v.primaryProfile → Rewrites canonical (writeIaSequenceHeader v) bs) ∧
      v.trailing = [] := by
  refine consumesBind (consumesU32 canonical (by omega)) fun code b1 ⟨_, _, r1⟩ => ?_
  refine consumesBind (consumesU8 canonical (by omega)) fun primary b2 ⟨_, _, r2⟩ => ?_
  refine consumesBind (consumesU8 canonical (by omega)) fun additional b3 ⟨_, _, r3⟩ => consumesPure ?_
  refine ⟨fun ordered => rewritesGuard (by simpa using ordered) ?_, rfl⟩
  exact rewritesBind r1 (rewritesBind r2 (rewritesBind r3 (rewritesBytes [])))

theorem sequenceHeaderReadsBack (canonical : Prop) {payload trailing : Bytes} {v : IaSequenceHeader}
    (ok : parsePayload readIaSequenceHeaderBody payload = .ok (v, trailing)) : v.trailing = [] ∧
      (finishWriter (writeIaSequenceHeader v) =
          .error ⟨.additionalProfileBelowPrimary, .field "additional_profile"⟩ ∨
        ∃ bytes, finishWriter (writeIaSequenceHeader v) = .ok bytes ∧
          bytes.length + trailing.length ≤ payload.length ∧ (canonical → bytes ++ trailing = payload)) := by
  obtain ⟨own, bytes⟩ := parsePayloadRewritesIf (consumesSequenceHeader canonical) ok
  refine ⟨own, ?_⟩
  by_cases low : v.additionalProfile < v.primaryProfile
  · left
    unfold finishWriter runWriter writeIaSequenceHeader
    rw [decide_eq_true low, Bool.not_true, bindError _ (ensureFalse _ _)]
    rfl
  · exact .inr (bytes low)

end Iamf.Wire
