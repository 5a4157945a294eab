import Iamf.BitString

/-! Errors with the position they happened at, and the findings of the validators.
A message keeps its template and arguments; rendering them is left to the language. -/
namespace Iamf
open BitString (Bytes)

inductive Location where
  | inputOffset (offset : Nat)
  | outputOffset (offset : Nat)
  | field (path : String)
  | unlocated
  deriving DecidableEq, Repr

inductive ErrorKind where
  | unexpectedEndOfInput
  | notByteAligned
  | unsupportedWidth (bits : UInt8)
  | valueExceedsWidth (bits : UInt8)
  | leb128TooLong
  | leb128ValueTooLarge
  | stringNotTerminated
  | stringTooLong
  | stringHasInteriorNul
  | leb128SizeInvalid (size : UInt8)
  | obuSizeOverflow
  | obuTooLarge
  | truncatedObu
  | unalignedAfterSizeFields
  | redundantCopyNotAllowed
  | trimmingFlagNotAllowed
  | loudnessOutOfRange
  | additionalProfileBelowPrimary
  | notAnAudioFrame
  | substreamIdMismatch
  | channelCountMismatch
  | coupledSubstreamCountMismatch
  | unsupportedLayout
  | zeroSamplesPerFrame
  | framePlanOverflow
  | temporalUnitTrimMismatch
  | duplicateSubstreamId
  | parameterIdMismatch
  | parameterModeMismatch
  | unsupportedParameterData
  | subblockDurationMismatch
  | annotationCountMismatch
  | channelCountExceedsProfile
  | elementCountExceedsProfile
  | descriptorsNotWritten
  | descriptorsAlreadyWritten
  | noGoverningParamDefinition
  | sinkWrite
  | sequenceWriterPoisoned
  | sampleRateNotSupportedByCodec
  | samplesPerFrameNotSupportedByCodec
  | bitsPerSampleNotSupportedByCodec
  | unknownCodecConfigHandle
  | unknownAudioElementHandle
  | unknownSubstreamHandle
  | unknownParameterHandle
  | invalidDescriptorReference
  | duplicateDeclaration
  | wireIdAllocationExhausted
  | multipleCodecConfigs
  | subMixCountNotOne
  | reservedHeadphonesRenderingMode
  | noMixPresentation
  | duplicateMixPresentationAudioElement
  | duplicateAnnotationsLanguage
  | duplicateAnchorElement
  | parameterRateMismatch
  | unknownTemporalSubstreamHandle
  | unknownTemporalParameterHandle
  | missingTemporalSubstream
  | duplicateTemporalSubstream
  | temporalSubstreamOrderMismatch
  | frameCodecMismatch
  | lpcmFrameByteAlignment
  | lpcmFrameSampleCountMismatch
  | parameterBlockDurationMismatch
  | parameterSubstreamCoverageMismatch
  | duplicateTemporalParameterBlock
  | startTrimAfterUntrimmedAudio
  | temporalUnitAfterEndTrim
  | opusStartTrimExceedsPreSkip
  | opusStartTrimShortOfPreSkip
  | subblockCountNotOne
  | reservedAliasesDefinedValue
  | gatedFieldMismatch
  | annotationsLanguageNotWellFormed
  deriving DecidableEq, Repr

structure Error where
  kind : ErrorKind
  location : Location
  deriving DecidableEq, Repr

def u32Max : Nat := 4294967295
def u64Max : Nat := 18446744073709551615

def Error.withInputBase (base : Nat) (e : Error) : Error :=
  match e.location with
  | .inputOffset relative => { e with location := .inputOffset (min (base + relative) u64Max) }
  | _ => e

def u32TryFrom (n : Nat) (e : Error) : Except Error UInt32 :=
  if n ≤ u32Max then .ok (UInt32.ofNat n) else .error e

theorem u32TryFromOk {n : Nat} {e : Error} {v : UInt32} (ok : u32TryFrom n e = .ok v) :
    v.toNat = n := by
  unfold u32TryFrom at ok
  split at ok
  · rename_i small
    cases ok
    unfold u32Max at small
    rw [UInt32.toNat_ofNat', Nat.mod_eq_of_lt (by omega)]
  · contradiction

inductive MessageArg where
  | number (n : Nat)
  | signed (n : Int)
  | hex (n : Nat)
  | text (bytes : Bytes)
  | list (items : List Nat)
  deriving DecidableEq, Repr

structure Message where
  template : String
  args : List MessageArg
  deriving DecidableEq, Repr

structure Finding where
  location : Location
  message : Message
  deriving DecidableEq, Repr

def Finding.at (path template : String) (args : List MessageArg) : Finding :=
  ⟨.field path, ⟨template, args⟩⟩

def findingIf (broken : Bool) (finding : Finding) : List Finding :=
  if broken then [finding] else []

@[simp] theorem findingIfNil {broken : Bool} {finding : Finding} :
    findingIf broken finding = [] ↔ broken = false := by
  cases broken <;> simp [findingIf]

def laterDuplicatesFrom {T : Type} (same : T → T → Bool) (earlier : List T) : List T → List T
  | [] => []
  | item :: items =>
    (if earlier.any (same · item) then [item] else []) ++ laterDuplicatesFrom same (earlier ++ [item]) items

def laterDuplicates {T : Type} (same : T → T → Bool) (items : List T) : List T :=
  laterDuplicatesFrom same [] items

theorem laterDuplicatesFromNil {T : Type} {same : T → T → Bool} {earlier items : List T} :
    laterDuplicatesFrom same earlier items = [] ↔
      (∀ a ∈ earlier, ∀ b ∈ items, same a b = false) ∧ items.Pairwise (same · · = false) := by
  induction items generalizing earlier with
  | nil => simp [laterDuplicatesFrom]
  | cons item items ih =>
    simp only [laterDuplicatesFrom, List.append_eq_nil_iff, ih, ite_eq_right_iff, List.cons_ne_nil, imp_false,
      List.any_eq_true, not_exists, not_and, Bool.not_eq_true, List.mem_append, List.not_mem_nil, or_false,
      List.pairwise_cons, List.mem_cons]
    constructor
    · rintro ⟨head, before, tail⟩
      refine ⟨fun a among b => ?_, fun b => before item (.inr rfl) b, tail⟩
      rintro (rfl | later)
      · exact head a among
      · exact before a (.inl among) b later
    · rintro ⟨before, head, tail⟩
      refine ⟨fun a among => before a among item (.inl rfl), fun a among b later => ?_, tail⟩
      rcases among with among | rfl
      · exact before a among b (.inr later)
      · exact head b later

theorem laterDuplicatesNil {T : Type} {same : T → T → Bool} {items : List T} :
    laterDuplicates same items = [] ↔ items.Pairwise (same · · = false) := by
  simp [laterDuplicates, laterDuplicatesFromNil]

end Iamf
