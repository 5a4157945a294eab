import Iamf.ParamRegistry

/-! The Parameter Block OBU. What it holds is not self-describing: the definition registered
under its id says how it is read and written. -/
namespace Iamf.Wire
open Bits BitString TapeCodec

inductive AnimationType where
  | step
  | linear
  | bezier
  | reserved (raw : UInt32)
  deriving DecidableEq, Repr

namespace AnimationType

def value : AnimationType → UInt32
  | .step => 0
  | .linear => 1
  | .bezier => 2
  | .reserved raw => raw

def fromValue (value : UInt32) : AnimationType :=
  match value with
  | 0 => .step
  | 1 => .linear
  | 2 => .bezier
  | other => .reserved other

theorem valueOfFromValue (v : UInt32) : (fromValue v).value = v := by
  unfold fromValue
  split <;> rfl

end AnimationType

inductive MixGainParameterData where
  | step (startPointValue : Int16)
  | linear (startPointValue endPointValue : Int16)
  | bezier (startPointValue endPointValue controlPointValue : Int16) (controlPointRelativeTime : UInt8)
  deriving DecidableEq

def MixGainParameterData.animationType : MixGainParameterData → AnimationType
  | .step .. => .step
  | .linear .. => .linear
  | .bezier .. => .bezier

structure DemixingInfoParameterData where
  dmixpMode : UInt8
  reserved : UInt8
  deriving DecidableEq

structure ReconGainElement where
  reconGainFlag : UInt32
  reconGain : {bytes : Bytes // bytes.length = 12}
  deriving DecidableEq

structure ReconGainInfoParameterData where
  layers : List (Option ReconGainElement)
  deriving DecidableEq

inductive ParameterData where
  | mixGain (data : MixGainParameterData)
  | demixing (data : DemixingInfoParameterData)
  | reconGain (data : ReconGainInfoParameterData)
  | raw (bytes : Bytes)
  deriving DecidableEq

def ParameterData.validate : ParameterData → List Finding
  | .demixing data =>
    findingIf (data.dmixpMode == 3 || data.dmixpMode == 7) (.at "dmixp_mode"
      "dmixp_mode {} is reserved" [.number data.dmixpMode.toNat]) ++
    findingIf (data.reserved != 0) (.at "reserved"
      "demixing reserved field carries non-zero value {}" [.number data.reserved.toNat])
  | .reconGain data => data.layers.flatMap fun
    | some element => findingIf (element.reconGainFlag &&& 0xfffff000 != 0) (.at "recon_gain_flag"
        "recon_gain_flag {} sets reserved bits above bit 11" [.number element.reconGainFlag.toNat])
    | none => []
  | _ => []

structure ParameterSubblock where
  subblockDuration : Option UInt32
  data : ParameterData
  deriving DecidableEq

structure BlockDurationFields where
  duration : UInt32
  constantSubblockDuration : UInt32
  deriving DecidableEq, Repr

structure ParameterBlock where
  parameterId : UInt32
  durationFields : Option BlockDurationFields
  subblocks : List ParameterSubblock
  deriving DecidableEq

def ParameterBlock.validate (block : ParameterBlock) : List Finding :=
  block.subblocks.flatMap fun subblock => subblock.data.validate

def subblocksImpliedBy (duration constantSubblockDuration : UInt32) (at' : Location) : Except Error UInt32 :=
  if constantSubblockDuration = 0 then .error ⟨.subblockDurationMismatch, at'⟩
  else
    let whole := duration / constantSubblockDuration
    if duration % constantSubblockDuration = 0 then .ok whole
    else if whole.toNat + 1 ≤ u32Max then .ok (whole + 1)
    else .error ⟨.subblockDurationMismatch, at'⟩

def ParameterDataContext.singleSubblock : ParameterDataContext → Bool
  | .demixing | .reconGain _ => true
  | _ => false

def checkSingleSubblock (context : ParameterDataContext) (count : Nat) (at' : Location) : Except Error Unit :=
  if context.singleSubblock ∧ count ≠ 1 then .error ⟨.subblockCountNotOne, at'⟩ else .ok ()

def ParameterDataContext.matchesData (context : ParameterDataContext) (data : ParameterData) : Bool :=
  match context, data with
  | .mixGain, .mixGain _ => true
  | .demixing, .demixing _ => true
  | .reserved value, .raw _ => 3 ≤ value.toNat
  | .reconGain present, .reconGain data => data.layers.map Option.isSome == present
  | _, _ => false

def validateParameterDataKind (context : ParameterDataContext) (data : ParameterData) : Except Error Unit :=
  if context.matchesData data then .ok ()
  else .error ⟨.unsupportedParameterData, match context with
    | .reconGain _ => .field "recon_gain_is_present"
    | _ => .field "parameter_data"⟩

def addDuration (total : Nat) (duration : Option UInt32) (e : Error) : Except Error Nat :=
  match duration with
  | some value => if total + value.toNat ≤ u64Max then .ok (total + value.toNat) else .error e
  | none => .ok total

def subblocksOfDefinition (definition : ParamDefinition) (mode tooLarge at' : Location) : Except Error UInt32 :=
  match definition.durationFields with
  | none => .error ⟨.parameterModeMismatch, mode⟩
  | some fields =>
    if fields.constantSubblockDuration = 0 then u32TryFrom fields.subblockDurations.length ⟨.obuTooLarge, tooLarge⟩
    else subblocksImpliedBy fields.duration fields.constantSubblockDuration at'

def flagged (flag : UInt32) (index : Nat) : Bool := flag &&& (1 <<< UInt32.ofNat index) != 0

def readGain (flag : UInt32) (index : Nat) : Reader UInt8 := if flagged flag index then readU8 8 else pure 0

def readGains (flag : UInt32) : (n : Nat) → Nat → Reader {bytes : Bytes // bytes.length = n}
  | 0, _ => pure ⟨[], rfl⟩
  | n+1, index => do
    let value ← readGain flag index
    let gains ← readGains flag n (index + 1)
    pure ⟨value :: gains.val, by rw [List.length_cons, gains.property]⟩

section

variable [UlebForm]

def readMixGainParameterData (animation : AnimationType) (start : Nat) : Reader MixGainParameterData :=
  match animation with
  | .step => do
    let startPointValue ← readI16
    pure (.step startPointValue)
  | .linear => do
    let startPointValue ← readI16
    let endPointValue ← readI16
    pure (.linear startPointValue endPointValue)
  | .bezier => do
    let startPointValue ← readI16
    let endPointValue ← readI16
    let controlPointValue ← readI16
    let controlPointRelativeTime ← readU8 8
    pure (.bezier startPointValue endPointValue controlPointValue controlPointRelativeTime)
  | .reserved _ => throw (inputError .unsupportedParameterData start)

def readReconGainLayer (present : Bool) : Reader (Option ReconGainElement) :=
  if present then do
    let reconGainFlag ← readUleb128
    let reconGain ← readGains reconGainFlag 12 0
    pure (some ⟨reconGainFlag, reconGain⟩)
  else pure none

def readReconGainLayers : List Bool → Reader (List (Option ReconGainElement))
  | [] => pure []
  | present :: others => do
    let layer ← readReconGainLayer present
    let layers ← readReconGainLayers others
    pure (layer :: layers)

def readParameterData (context : ParameterDataContext) : Reader ParameterData := do
  let start ← bytePosition
  match context with
  | .mixGain => do
    let animation ← readUleb128
    let data ← readMixGainParameterData (.fromValue animation) start
    pure (.mixGain data)
  | .demixing => do
    let dmixpMode ← readU8 3
    let reserved ← readU8 5
    pure (.demixing ⟨dmixpMode, reserved⟩)
  | .reconGain present => do
    let layers ← readReconGainLayers present
    pure (.reconGain ⟨layers⟩)
  | .reserved value => do
    ensure (decide (3 ≤ value.toNat)) (inputError .unsupportedParameterData start)
    let size ← readUleb128
    let bytes ← readUint8Span size.toNat
    pure (.raw bytes)

def readSubblockDuration (included : Bool) : Reader (Option UInt32) :=
  if included then do
    let value ← readUleb128
    pure (some value)
  else pure none

def readSubblocks (included : Bool) (context : ParameterDataContext) (start : Nat) :
    Nat → Nat → Reader (List ParameterSubblock × Nat)
  | 0, total => pure ([], total)
  | n+1, total => do
    let duration ← readSubblockDuration included
    let total ← orThrow (addDuration total duration (inputError .subblockDurationMismatch start))
    let data ← readParameterData context
    let (subblocks, total) ← readSubblocks included context start n total
    pure (⟨duration, data⟩ :: subblocks, total)

def readNumSubblocks (duration constantSubblockDuration : UInt32) (start : Nat) : Reader UInt32 :=
  if constantSubblockDuration = 0 then readUleb128
  else orThrow (subblocksImpliedBy duration constantSubblockDuration (.inputOffset start))

def readBlockDurations (definition : ParamDefinition) (start : Nat) :
    Reader (Option BlockDurationFields × UInt32) :=
  if definition.paramDefinitionMode then do
    let duration ← readUleb128
    let constantSubblockDuration ← readUleb128
    let numSubblocks ← readNumSubblocks duration constantSubblockDuration start
    pure (some ⟨duration, constantSubblockDuration⟩, numSubblocks)
  else do
    let numSubblocks ← orThrow (subblocksOfDefinition definition (.inputOffset start) (.inputOffset start)
      (.inputOffset start))
    pure (none, numSubblocks)

def BlockDurationFields.explicit (fields : Option BlockDurationFields) : Bool :=
  fields.any (·.constantSubblockDuration == 0)

def ParameterDataContext.zeroByteSubblockPossible : ParameterDataContext → Bool
  | .reconGain _ => true
  | _ => false

def readParameterBlock (registry : ParamDefinitionRegistry) : Reader ParameterBlock := do
  let start ← bytePosition
  let peeked ← peek readUleb128
  let registered ← orThrow ((registry.get peeked).elim
    (.error (inputError .noGoverningParamDefinition start)) .ok)
  let parameterId ← readUleb128
  ensure (parameterId == registered.definition.parameterId) (inputError .parameterIdMismatch start)
  let (durationFields, numSubblocks) ← readBlockDurations registered.definition start
  orThrow (checkSingleSubblock registered.context numSubblocks.toNat (.inputOffset start))
  let remaining ← bytesRemaining
  ensure (registered.context.zeroByteSubblockPossible || !(numSubblocks.toNat > remaining))
    (inputError .unexpectedEndOfInput start)
  let included := BlockDurationFields.explicit durationFields
  let (subblocks, total) ← readSubblocks included registered.context start numSubblocks.toNat 0
  ensure (!included || total == (durationFields.elim 0 fun fields => fields.duration.toNat))
    (inputError .subblockDurationMismatch start)
  pure ⟨parameterId, durationFields, subblocks⟩

end

def writeMixGainParameterData : MixGainParameterData → Writer Unit
  | .step startPointValue => writeSigned startPointValue.toInt 16
  | .linear startPointValue endPointValue => do
    writeSigned startPointValue.toInt 16
    writeSigned endPointValue.toInt 16
  | .bezier startPointValue endPointValue controlPointValue controlPointRelativeTime => do
    writeSigned startPointValue.toInt 16
    writeSigned endPointValue.toInt 16
    writeSigned controlPointValue.toInt 16
    writeUnsigned controlPointRelativeTime.toNat 8

def writeGain (flag : UInt32) (index : Nat) (gain : UInt8) : Writer Unit :=
  if flagged flag index then writeUnsigned gain.toNat 8 else pure ()

def writeGains (flag : UInt32) : Nat → Bytes → Writer Unit
  | _, [] => pure ()
  | index, gain :: gains => do
    writeGain flag index gain
    writeGains flag (index + 1) gains

def writeReconGainLayer : Option ReconGainElement × Bool → Writer Unit
  | (_, false) => pure ()
  | (none, true) => throw ⟨.unsupportedParameterData, .field "recon_gain_is_present"⟩
  | (some element, true) => do
    writeUleb128Minimal element.reconGainFlag
    writeGains element.reconGainFlag 0 element.reconGain.val

def writeParameterData (context : ParameterDataContext) (data : ParameterData) : Writer Unit :=
  match data with
  | .mixGain data => do
    writeUleb128Minimal data.animationType.value
    writeMixGainParameterData data
  | .demixing data => do
    writeUnsigned data.dmixpMode.toNat 3
    writeUnsigned data.reserved.toNat 5
  | .reconGain data =>
    match context with
    | .reconGain present => writeEach writeReconGainLayer (data.layers.zip present)
    | _ => throw ⟨.unsupportedParameterData, .field "parameter_data"⟩
  | .raw bytes => do
    writeCount bytes.length "parameter_data_size"
    writeBytes bytes

def validateKinds (context : ParameterDataContext) : List ParameterSubblock → Except Error Unit
  | [] => .ok ()
  | subblock :: subblocks => do
    validateParameterDataKind context subblock.data
    validateKinds context subblocks

def expectedSubblocks (definition : ParamDefinition) (block : ParameterBlock) :
    Except Error (UInt32 × Bool × Option UInt32) :=
  match block.durationFields with
  | some fields =>
    if fields.constantSubblockDuration = 0 then do
      let count ← u32TryFrom block.subblocks.length ⟨.obuTooLarge, .field "num_subblocks"⟩
      .ok (count, true, some fields.duration)
    else do
      let count ← subblocksImpliedBy fields.duration fields.constantSubblockDuration (.field "subblocks")
      .ok (count, false, none)
  | none => do
    let count ← subblocksOfDefinition definition (.field "duration_fields") (.field "subblocks") (.field "subblocks")
    .ok (count, false, none)

def sumDurations (carries : Bool) : List ParameterSubblock → Nat → Except Error Nat
  | [], total => .ok total
  | subblock :: subblocks, total =>
    if subblock.subblockDuration.isSome ≠ carries then
      .error ⟨.subblockDurationMismatch, .field "subblock_duration"⟩
    else do
      let total ← addDuration total subblock.subblockDuration ⟨.subblockDurationMismatch, .field "subblock_duration"⟩
      sumDurations carries subblocks total

def guarded (ok : Bool) (e : Error) : Except Error Unit := if ok then .ok () else .error e

def validateParameterBlock (definition : ParamDefinition) (context : ParameterDataContext) (block : ParameterBlock) :
    Except Error Unit := do
  guarded (block.parameterId == definition.parameterId) ⟨.parameterIdMismatch, .field "parameter_id"⟩
  guarded (block.durationFields.isSome == definition.paramDefinitionMode)
    ⟨.parameterModeMismatch, .field "param_definition_mode"⟩
  validateKinds context block.subblocks
  let (expectedCount, carries, declared) ← expectedSubblocks definition block
  let actualCount ← u32TryFrom block.subblocks.length ⟨.obuTooLarge, .field "subblocks"⟩
  checkSingleSubblock context actualCount.toNat (.field "subblocks")
  guarded (actualCount == expectedCount) ⟨.subblockDurationMismatch, .field "subblocks"⟩
  let durationSum ← sumDurations carries block.subblocks 0
  guarded (declared.all fun duration => durationSum == duration.toNat)
    ⟨.subblockDurationMismatch, .field "subblock_duration"⟩

def writeNumSubblocks (constantSubblockDuration : UInt32) (count : Nat) : Writer Unit :=
  if constantSubblockDuration = 0 then writeCount count "num_subblocks" else pure ()

def writeBlockDurations (block : ParameterBlock) : Writer Unit :=
  match block.durationFields with
  | some fields => do
    writeUleb128Minimal fields.duration
    writeUleb128Minimal fields.constantSubblockDuration
    writeNumSubblocks fields.constantSubblockDuration block.subblocks.length
  | none => pure ()

def writeSubblockDuration : Option UInt32 → Writer Unit
  | some duration => writeUleb128Minimal duration
  | none => pure ()

def writeSubblock (context : ParameterDataContext) (subblock : ParameterSubblock) : Writer Unit := do
  writeSubblockDuration subblock.subblockDuration
  writeParameterData context subblock.data

def writeParameterBlock (definition : ParamDefinition) (context : ParameterDataContext) (block : ParameterBlock) :
    Writer Unit := do
  orThrow (validateParameterBlock definition context block)
  writeUleb128Minimal block.parameterId
  writeBlockDurations block
  writeEach (writeSubblock context) block.subblocks

end Iamf.Wire
