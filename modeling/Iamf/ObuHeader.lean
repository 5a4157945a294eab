import Iamf.Leb128

/-! The OBU header: type, flags, trimming and extension. `obu_size` is framing and lives
in the next module. -/
namespace Iamf.Wire
open Bits BitString TapeCodec

def entireObuSizeMax : Nat := 2 ^ 21

inductive ObuType where
  | codecConfig
  | audioElement
  | mixPresentation
  | parameterBlock
  | temporalDelimiter
  | audioFrame
  | audioFrameId (id : Fin 18)
  | iaSequenceHeader
  | reserved (raw : UInt8)
  deriving DecidableEq, Repr

namespace ObuType

def value : ObuType → UInt8
  | .codecConfig => 0
  | .audioElement => 1
  | .mixPresentation => 2
  | .parameterBlock => 3
  | .temporalDelimiter => 4
  | .audioFrame => 5
  | .audioFrameId id => UInt8.ofNat (6 + id.val)
  | .iaSequenceHeader => 31
  | .reserved raw => raw

def fromValue (value : UInt8) : ObuType :=
  if value = 0 then .codecConfig
  else if value = 1 then .audioElement
  else if value = 2 then .mixPresentation
  else if value = 3 then .parameterBlock
  else if value = 4 then .temporalDelimiter
  else if value = 5 then .audioFrame
  else if frame : 6 ≤ value.toNat ∧ value.toNat ≤ 23 then .audioFrameId ⟨value.toNat - 6, by omega⟩
  else if value = 31 then .iaSequenceHeader
  else .reserved value

def isAudioFrame (t : ObuType) : Bool := 5 ≤ t.value.toNat && t.value.toNat ≤ 23

def isRedundantCopyAllowed (t : ObuType) : Bool := !(3 ≤ t.value.toNat && t.value.toNat ≤ 23)

theorem valueOfFromValue (v : UInt8) : (fromValue v).value = v := by
  unfold fromValue
  split_ifs <;> simp_all [value]

def Aliased : ObuType → Prop
  | .reserved raw => raw.toNat ≤ 23 ∨ raw = 31
  | _ => False

theorem fromValueNotAliased (v : UInt8) : ¬ Aliased (fromValue v) := by
  unfold fromValue
  split_ifs <;> simp only [Aliased, not_false_eq_true]
  rename_i n0 n1 n2 n3 n4 n5 frame n31
  have ne {k : UInt8} (h : ¬ v = k) : v.toNat ≠ k.toNat := fun same => h (UInt8.toNat_inj.mp same)
  have := ne n0; have := ne n1; have := ne n2; have := ne n3; have := ne n4; have := ne n5
  refine not_or.mpr ⟨fun low => ?_, n31⟩
  simp only [show (0 : UInt8).toNat = 0 from rfl, show (1 : UInt8).toNat = 1 from rfl,
    show (2 : UInt8).toNat = 2 from rfl, show (3 : UInt8).toNat = 3 from rfl,
    show (4 : UInt8).toNat = 4 from rfl, show (5 : UInt8).toNat = 5 from rfl] at *
  omega

theorem fromValueOfValue {t : ObuType} (plain : ¬ Aliased t) : fromValue t.value = t := by
  cases t with
  | reserved raw =>
    simp only [Aliased, not_or, Nat.not_le] at plain
    have ne (k : UInt8) (small : k.toNat ≤ 23) : ¬ raw = k := by rintro rfl; omega
    simp only [value, fromValue, ne 0 (by decide), ne 1 (by decide), ne 2 (by decide), ne 3 (by decide),
      ne 4 (by decide), ne 5 (by decide), plain.2, if_false]
    rw [dif_neg (by omega)]
  | audioFrameId id =>
    have : ∀ id : Fin 18, fromValue (UInt8.ofNat (6 + id.val)) = .audioFrameId id := by decide
    exact this id
  | _ => rfl

end ObuType

structure Trimming where
  atEnd : UInt32
  atStart : UInt32
  deriving DecidableEq, Repr

inductive TypeSpecific where
  | trimming (trim : Option Trimming)
  | reserved
  deriving DecidableEq, Repr

structure ObuHeader where
  obuType : ObuType
  obuRedundantCopy : Bool
  typeSpecific : TypeSpecific
  extension : Option Bytes
  deriving DecidableEq, Repr

namespace ObuHeader

def new (obuType : ObuType) : ObuHeader := ⟨obuType, false, .reserved, none⟩

def withTypeSpecific (h : ObuHeader) (typeSpecific : TypeSpecific) : ObuHeader :=
  { h with typeSpecific := typeSpecific }

def trimmingStatusFlag (h : ObuHeader) : Bool :=
  match h.typeSpecific with
  | .trimming (some _) => true
  | _ => false

def extensionFlag (h : ObuHeader) : Bool := h.extension.isSome

end ObuHeader

def writeTrimming : TypeSpecific → Writer Unit
  | .trimming (some trim) => do
    writeUleb128Minimal trim.atEnd
    writeUleb128Minimal trim.atStart
  | _ => pure ()

def writeExtension : Option Bytes → Writer Unit
  | some bytes => do
    ensure (bytes.length ≤ u32Max) ⟨.obuTooLarge, .outputOffset 0⟩
    writeUleb128Minimal (UInt32.ofNat bytes.length)
    writeBytes bytes
  | none => pure ()

def writeFieldsAfterObuSize (header : ObuHeader) : Writer Unit := do
  writeTrimming header.typeSpecific
  writeExtension header.extension

def validateHeader (header : ObuHeader) : Except Error Unit :=
  match header.obuType with
  | .reserved value =>
    if value.toNat ≤ 23 ∨ value = 31 then .error ⟨.reservedAliasesDefinedValue, .field "obu_type"⟩
    else gates header
  | _ => gates header
where
  gates (header : ObuHeader) : Except Error Unit :=
    if header.trimmingStatusFlag && !header.obuType.isAudioFrame then
      .error ⟨.trimmingFlagNotAllowed, .field "obu_trimming_status_flag"⟩
    else if header.obuRedundantCopy && !header.obuType.isRedundantCopyAllowed then
      .error ⟨.redundantCopyNotAllowed, .field "obu_redundant_copy"⟩
    else .ok ()

section

variable [UlebForm]

def readExtensionHeader : Reader Bytes := do
  let len ← readUleb128
  readUint8Span len.toNat

def readTypeSpecific (obuType : ObuType) (trimmingStatusFlag : Bool) : Reader TypeSpecific :=
  if trimmingStatusFlag then do
    let atEnd ← readUleb128
    let atStart ← readUleb128
    pure (.trimming (some ⟨atEnd, atStart⟩))
  else if obuType.isAudioFrame then pure (.trimming none)
  else pure .reserved

def readExtension (extensionFlag : Bool) : Reader (Option Bytes) :=
  if extensionFlag then do
    let bytes ← readExtensionHeader
    pure (some bytes)
  else pure none

def readFieldsAfterObuSize (obuType : ObuType) (trimmingStatusFlag extensionFlag : Bool) :
    Reader (TypeSpecific × Option Bytes) := do
  let typeSpecific ← readTypeSpecific obuType trimmingStatusFlag
  let extension ← readExtension extensionFlag
  pure (typeSpecific, extension)

end

/-- The header says by its flags and its type what its fields hold. Every header the
reader returns is of this kind; a built one need not be. -/
structure Normal (header : ObuHeader) : Prop where
  plain : ¬ header.obuType.Aliased
  trimmed : ∀ trim, header.typeSpecific = .trimming trim →
    trim.isSome = true ∨ header.obuType.isAudioFrame = true
  untrimmed : header.typeSpecific = .reserved → header.obuType.isAudioFrame = false

theorem pairedTypeSpecific {header : ObuHeader} (normal : Normal header) :
    Paired 0 0 (writeTrimming header.typeSpecific)
      (readTypeSpecific header.obuType header.trimmingStatusFlag) header.typeSpecific := by
  unfold readTypeSpecific writeTrimming ObuHeader.trimmingStatusFlag
  cases kind : header.typeSpecific with
  | trimming trim =>
    cases trim with
    | some trim =>
      refine pairedBind (pairedUleb128 0 trim.atEnd) ?_
      exact pairedReturn (pairedUleb128 0 trim.atStart) rfl
    | none =>
      have frame := normal.trimmed none kind
      simp only [Option.isSome_none, Bool.false_eq_true, false_or] at frame
      simp only [frame]
      exact pairedPure 0 _
  | reserved =>
    have other := normal.untrimmed kind
    simp only [other]
    exact pairedPure 0 _

theorem pairedExtension (extension : Option Bytes) :
    Paired 0 0 (writeExtension extension) (readExtension extension.isSome) extension := by
  cases extension with
  | none => exact pairedPure 0 _
  | some bytes =>
    refine pairedGuard fun small => ?_
    have small : bytes.length ≤ u32Max := by simpa using small
    have length : bytes.length = (UInt32.ofNat bytes.length).toNat := by
      rw [UInt32.toNat_ofNat', Nat.mod_eq_of_lt (by simp only [u32Max] at small; omega)]
    have body := pairedBind (j := fun len => readUint8Span len.toNat) (k := fun _ => writeBytes bytes)
      (pairedUleb128 0 (UInt32.ofNat bytes.length)) (pairedBytes length)
    exact pairedReturn body rfl

theorem pairedFields {header : ObuHeader} (normal : Normal header) :
    Paired 0 0 (writeFieldsAfterObuSize header)
      (readFieldsAfterObuSize header.obuType header.trimmingStatusFlag header.extensionFlag)
      (header.typeSpecific, header.extension) :=
  pairedBind (pairedTypeSpecific normal) (pairedReturn (pairedExtension header.extension) rfl)

section

variable [UlebForm]

theorem consumesTypeSpecific (obuType : ObuType) (flag : Bool) :
    Consumes (readTypeSpecific obuType flag) fun kind bs => Rewrites Canonical (writeTrimming kind) bs ∧
      (kind = .reserved ∧ flag = false ∧ obuType.isAudioFrame = false ∨
        ∃ trim, kind = .trimming trim ∧ trim.isSome = flag ∧ (flag = true ∨ obuType.isAudioFrame = true)) := by
  unfold readTypeSpecific
  split
  · rename_i set
    refine consumesBind consumesUleb128 fun atEnd bs first => ?_
    refine consumesBind consumesUleb128 fun atStart cs second => consumesPure ⟨?_, .inr ⟨_, rfl, ?_, .inl set⟩⟩
    · rw [List.append_nil]; exact rewritesBind first second
    · rw [set]; rfl
  · rename_i clear
    have clear : flag = false := by simpa using clear
    split
    · rename_i frame
      exact consumesPure ⟨rewritesPure, .inr ⟨none, rfl, by rw [clear]; rfl, .inr frame⟩⟩
    · rename_i other
      exact consumesPure ⟨rewritesPure, .inl ⟨rfl, clear, by simpa using other⟩⟩

theorem consumesExtension (flag : Bool) :
    Consumes (readExtension flag) fun extension bs =>
      Rewrites Canonical (writeExtension extension) bs ∧ extension.isSome = flag := by
  unfold readExtension
  cases flag with
  | false => exact consumesPure ⟨rewritesPure, rfl⟩
  | true =>
    refine consumesBind (P := fun bytes bs => Rewrites Canonical (writeExtension (some bytes)) bs) ?_
      fun bytes bs post => consumesPure ⟨by rwa [List.append_nil], rfl⟩
    refine consumesBind consumesUleb128 fun len bs first => ?_
    refine consumesMono (consumesSpan len.toNat) fun bytes cs ⟨length, bits⟩ => ?_
    subst bits
    have small := len.toNat_lt
    have same : UInt32.ofNat bytes.length = len := by rw [length, UInt32.ofNat_toNat]
    refine rewritesGuard (decide_eq_true (by simp only [u32Max]; omega)) ?_
    rw [same]
    exact rewritesBind first (rewritesBytes bytes)

theorem consumesFields {obuType : ObuType} (redundant trimmed extended : Bool) (plain : ¬ obuType.Aliased) :
    Consumes (readFieldsAfterObuSize obuType trimmed extended) fun fields bs =>
      Normal ⟨obuType, redundant, fields.1, fields.2⟩ ∧
      ObuHeader.trimmingStatusFlag ⟨obuType, redundant, fields.1, fields.2⟩ = trimmed ∧
      fields.2.isSome = extended ∧
      Rewrites Canonical (writeFieldsAfterObuSize ⟨obuType, redundant, fields.1, fields.2⟩) bs := by
  refine consumesBind (consumesTypeSpecific obuType trimmed) fun kind bs ⟨first, shape⟩ => ?_
  refine consumesBind (consumesExtension extended) fun extension cs ⟨second, flag⟩ => consumesPure ?_
  rw [List.append_nil]
  refine ⟨⟨plain, ?_, ?_⟩, ?_, flag, rewritesBind first second⟩
  · rintro trim rfl
    rcases shape with ⟨absurd, _⟩ | ⟨trim', same, isSome, frame⟩
    · contradiction
    · cases same
      rcases frame with set | frame
      · exact .inl (isSome.trans set)
      · exact .inr frame
  · rintro rfl
    rcases shape with ⟨_, _, other⟩ | ⟨trim, absurd, _⟩
    · exact other
    · contradiction
  · rcases shape with ⟨rfl, clear, _⟩ | ⟨trim, rfl, isSome, _⟩
    · exact clear.symm
    · rw [← isSome]; cases trim <;> rfl

end

end Iamf.Wire
