import Iamf.Payload

/-! Parameter definitions, the syntax every animated parameter embeds. -/
namespace Iamf.Wire
open Bits BitString TapeCodec

structure DurationFields where
  duration : UInt32
  constantSubblockDuration : UInt32
  subblockDurations : List UInt32
  deriving DecidableEq, Repr

structure ParamDefinition where
  parameterId : UInt32
  parameterRate : UInt32
  reserved : UInt8
  durationFields : Option DurationFields
  deriving DecidableEq, Repr

namespace ParamDefinition

def mode1 (parameterId parameterRate : UInt32) : ParamDefinition := ⟨parameterId, parameterRate, 0, none⟩

def paramDefinitionMode (d : ParamDefinition) : Bool := d.durationFields.isNone

def validate (d : ParamDefinition) : List Finding :=
  findingIf (d.reserved != 0) (.at "param_definition.reserved"
    "param_definition.reserved is non-zero ({}) in its 7-bit reserved field" [.hex d.reserved.toNat])

end ParamDefinition

section

variable [UlebForm]

def readSubblockDurations (constantSubblockDuration : UInt32) : Reader (List UInt32) :=
  if constantSubblockDuration = 0 then readCounted readUleb128 else pure []

def readDurationFields : Reader DurationFields := do
  let duration ← readUleb128
  let constantSubblockDuration ← readUleb128
  let subblockDurations ← readSubblockDurations constantSubblockDuration
  pure ⟨duration, constantSubblockDuration, subblockDurations⟩

def readParamDefinition : Reader ParamDefinition := do
  let parameterId ← readUleb128
  let parameterRate ← readUleb128
  let paramDefinitionMode ← readBool
  let reserved ← readU8 7
  if paramDefinitionMode then pure ⟨parameterId, parameterRate, reserved, none⟩
  else do
    let fields ← readDurationFields
    pure ⟨parameterId, parameterRate, reserved, some fields⟩

end

-- durations beside a constant duration would not be written
def gatedDurations (d : ParamDefinition) : Bool :=
  match d.durationFields with
  | some fields => fields.constantSubblockDuration != 0 && !fields.subblockDurations.isEmpty
  | none => false

def writeSubblockDurations (fields : DurationFields) : Writer Unit :=
  if fields.constantSubblockDuration = 0 then
    writeCounted writeUleb128Minimal fields.subblockDurations "num_subblocks"
  else pure ()

def writeDurationFields : Option DurationFields → Writer Unit
  | some fields => do
    writeUleb128Minimal fields.duration
    writeUleb128Minimal fields.constantSubblockDuration
    writeSubblockDurations fields
  | none => pure ()

def writeParamDefinition (v : ParamDefinition) : Writer Unit := do
  ensure (!gatedDurations v) ⟨.gatedFieldMismatch, .field "subblock_durations"⟩
  writeUleb128Minimal v.parameterId
  writeUleb128Minimal v.parameterRate
  writeBool v.paramDefinitionMode
  writeUnsigned v.reserved.toNat 7
  writeDurationFields v.durationFields

theorem pairedSubblockDurations {fields : DurationFields}
    (gate : fields.constantSubblockDuration ≠ 0 → fields.subblockDurations = []) :
    Paired 0 0 (writeSubblockDurations fields) (readSubblockDurations fields.constantSubblockDuration)
      fields.subblockDurations := by
  unfold writeSubblockDurations readSubblockDurations
  split_ifs with constant
  · exact pairedCounted hungryUleb128 fun v _ => pairedUleb128 0 v
  · rw [gate constant]
    exact pairedPure 0 _

theorem pairedParamDefinition (v : ParamDefinition) :
    Paired 0 0 (writeParamDefinition v) readParamDefinition v := by
  refine pairedGuard fun open' => ?_
  refine pairedBind (pairedUleb128 0 v.parameterId) ?_
  refine pairedBind (pairedUleb128 _ v.parameterRate) ?_
  refine pairedBind (pairedBool _ v.paramDefinitionMode) ?_
  refine pairedBind (pairedPhase (pairedU8 _ v.reserved (by omega)) (show _ = 0 % 8 from rfl)) ?_
  obtain ⟨id, rate, reserved, durations⟩ := v
  cases durations with
  | none => exact pairedPure 0 _
  | some fields =>
    have gate : fields.constantSubblockDuration ≠ 0 → fields.subblockDurations = [] := by
      intro constant
      simpa [gatedDurations, constant] using open'
    refine pairedReturn (v := fields) ?_ rfl
    refine pairedBind (pairedUleb128 0 fields.duration) ?_
    refine pairedBind (pairedUleb128 0 fields.constantSubblockDuration) ?_
    exact pairedReturn (pairedSubblockDurations gate) rfl

section

variable [UlebForm]

theorem consumesSubblockDurations (duration constant : UInt32) : Consumes (readSubblockDurations constant) fun durations bs =>
    Rewrites Canonical (writeSubblockDurations ⟨duration, constant, durations⟩) bs ∧
      (constant ≠ 0 → durations = []) := by
  unfold readSubblockDurations writeSubblockDurations
  simp only
  split_ifs with zero
  · refine consumesMono (consumesCounted (G := fun _ => True) "num_subblocks"
      (consumesMono consumesUleb128 fun _ _ rewrites => ⟨rewrites, trivial⟩)) fun durations bs ⟨each, _⟩ => ?_
    exact ⟨each, fun constant => absurd zero constant⟩
  · exact consumesPure ⟨rewritesPure, fun _ => rfl⟩

theorem consumesParamDefinition : Consumes readParamDefinition fun v bs =>
    Rewrites Canonical (writeParamDefinition v) bs := by
  refine consumesBind consumesUleb128 fun id b1 r1 => ?_
  refine consumesBind consumesUleb128 fun rate b2 r2 => ?_
  refine consumesBind (consumesBool Canonical) fun mode b3 ⟨_, r3⟩ => ?_
  refine consumesBind (consumesU8 Canonical (by omega)) fun reserved b4 ⟨_, _, r4⟩ => ?_
  cases mode with
  | true =>
    refine consumesPure (rewritesGuard rfl ?_)
    exact rewritesBind r1 (rewritesBind r2 (rewritesBind r3 (rewritesBind r4 rewritesPure)))
  | false =>
    refine consumesBind (P := fun fields bs => Rewrites Canonical (writeDurationFields (some fields)) bs ∧
      (fields.constantSubblockDuration ≠ 0 → fields.subblockDurations = [])) ?_ fun fields b5 ⟨r5, gate⟩ => ?_
    · refine consumesBind consumesUleb128 fun duration b5 r5 => ?_
      refine consumesBind consumesUleb128 fun constant b6 r6 => ?_
      refine consumesBind (consumesSubblockDurations duration constant) fun durations b7 ⟨r7, gate⟩ => consumesPure ?_
      rw [List.append_nil]
      exact ⟨rewritesBind r5 (rewritesBind r6 r7), gate⟩
    · have open' : gatedDurations ⟨id, rate, reserved, some fields⟩ = false := by
        by_cases constant : fields.constantSubblockDuration = 0
        · simp [gatedDurations, constant]
        · simp [gatedDurations, gate constant]
      refine consumesPure (rewritesGuard (by rw [open']; rfl) ?_)
      rw [List.append_nil]
      exact rewritesBind r1 (rewritesBind r2 (rewritesBind r3 (rewritesBind r4 r5)))

end

end Iamf.Wire
