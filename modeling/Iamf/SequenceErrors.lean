import Iamf.LocatedErrors
import Iamf.SequenceBoundaries

/-! Every failure of the parser points into the OBU that failed. -/
namespace Iamf.Wire
open Bits BitString TapeCodec ReadTape

section

variable {lo hi : Nat}

theorem locatesPeek {T : Type} {φ ψ : Nat} {f : Reader T} (locates : Locates lo hi φ ψ f) :
    Locates lo hi φ φ (peek f) := by
  intro c length behind offset
  unfold peek
  cases run : f c with
  | ok v c' => exact ⟨rfl, behind, offset⟩
  | error e c' => exact locatesError locates length behind offset run

theorem locatesTrailing : Locates lo hi 0 0 readTrailing := locatesBind locatesRemaining fun _ => locatesSpan _

theorem locatesBounded {T : Type} {item : Reader T} (each : Locates lo hi 0 0 item) {start : Nat} (behind : lo ≤ start)
    (before : start ≤ hi) (count : Nat) : Locates lo hi 0 0 (readBounded item count start) := by
  refine locatesBind locatesRemaining fun remaining => ?_
  exact locatesBind (locatesEnsure (pointsInput _ behind before)) fun _ => locatesMany each count

theorem locatesCounted {T : Type} {item : Reader T} (each : Locates lo hi 0 0 item) :
    Locates lo hi 0 0 (readCounted item) :=
  locatesPosition fun _ behind before => locatesBind locatesUleb128 fun _ => locatesBounded each behind before _

theorem locatesIaSequenceHeader : Locates lo hi 0 0 readIaSequenceHeader := by
  refine locatesBind ?_ fun _ => locatesReturn locatesTrailing fun _ => ⟨_, rfl⟩
  refine locatesBind (locatesU32 (by omega)) fun iaCode => ?_
  exact locatesBind locatesOctet fun _ => locatesReturn locatesOctet fun _ => ⟨_, rfl⟩

theorem locatesLpcmDecoderConfig : Locates lo hi 0 0 readLpcmDecoderConfig := by
  refine locatesBind locatesOctet fun _ => locatesBind locatesOctet fun _ => ?_
  exact locatesReturn (locatesU32 (by omega)) fun _ => ⟨_, rfl⟩

theorem locatesOpusDecoderConfig : Locates lo hi 0 0 readOpusDecoderConfig := by
  refine locatesBind locatesOctet fun _ => locatesBind locatesOctet fun _ => ?_
  refine locatesBind (locatesU16 (by omega)) fun _ => locatesBind (locatesU32 (by omega)) fun _ => ?_
  exact locatesBind locatesI16 fun _ => locatesReturn locatesOctet fun _ => ⟨_, rfl⟩

theorem locatesFlacDecoderConfig : Locates lo hi 0 0 readFlacDecoderConfig := by
  refine locatesBind locatesBool fun _ => locatesBind (locatesU8 (by omega)) fun _ => ?_
  refine locatesBind (locatesU32 (by omega)) fun _ => locatesBind (locatesU16 (by omega)) fun _ => ?_
  refine locatesBind (locatesU16 (by omega)) fun _ => locatesBind (locatesU32 (by omega)) fun _ => ?_
  refine locatesBind (locatesU32 (by omega)) fun _ => locatesBind (locatesU32 (by omega)) fun _ => ?_
  refine locatesBind (locatesU8 (by omega)) fun _ => locatesBind (locatesU8 (by omega)) fun _ => ?_
  exact locatesBind (locatesU64 (by omega)) fun _ => locatesReturn (locatesArray 16) fun _ => ⟨_, rfl⟩

-- the descriptor is read from a cursor of its own; its errors would keep that cursor's offsets
theorem takesAacLcFields : Takes (8 * 19) readAacLcFields := by
  have fields : Takes (8 + (8 + (8 + (6 + (1 + (1 + (24 + (32 + (32 + (8 + (8 + (5 + (4 + (4 + (1 + (1 + 1))))))))))))))))
      readAacLcFields := by
    refine takesBind (takesUnsigned (by omega)) fun _ => takesBind (takesUnsigned (by omega)) fun _ => ?_
    refine takesBind (takesU8 (by omega)) fun _ => takesBind (takesU8 (by omega)) fun _ => ?_
    refine takesBind takesBool fun _ => takesBind takesBool fun _ => ?_
    refine takesBind (takesU32 (by omega)) fun _ => takesBind (takesU32 (by omega)) fun _ => ?_
    refine takesBind (takesU32 (by omega)) fun _ => takesBind (takesUnsigned (by omega)) fun _ => ?_
    refine takesBind (takesUnsigned (by omega)) fun _ => takesBind (takesU8 (by omega)) fun _ => ?_
    refine takesBind (takesU8 (by omega)) fun _ => takesBind (takesU8 (by omega)) fun _ => ?_
    refine takesBind takesBool fun _ => takesBind takesBool fun _ => ?_
    exact takesReturn takesBool fun _ => ⟨_, rfl⟩
  exact fields

theorem locatesDecoderConfig (codecId : CodecId) : Locates lo hi 0 0 (readDecoderConfig codecId) := by
  refine locatesBind locatesRemaining fun remaining => ?_
  split
  · exact locatesReturn locatesLpcmDecoderConfig fun _ => ⟨_, rfl⟩
  split
  · exact locatesReturn locatesFlacDecoderConfig fun _ => ⟨_, rfl⟩
  split
  · exact locatesReturn locatesOpusDecoderConfig fun _ => ⟨_, rfl⟩
  split
  · refine locatesThen (locatesSpan _) fun descriptor c c' ok => ?_
    split
    · refine locatesOrThrow fun e failed => ?_
      obtain ⟨_, length, _⟩ := readSpanSource ok
      obtain ⟨v, taken⟩ := takesAacLcFields (BitCursor.new descriptor) (by
        change 8 * 19 ≤ (bytesBits descriptor).length
        rw [bytesBitsLength, length]
        exact Nat.le_refl _)
      unfold readAacLcDecoderConfig at failed
      rw [taken] at failed
      cases failed
    · exact locatesReturn locatesTrailing fun _ => ⟨_, rfl⟩
  · exact locatesReturn locatesTrailing fun _ => ⟨_, rfl⟩

theorem locatesCodecConfig : Locates lo hi 0 0 readCodecConfig := by
  refine locatesBind ?_ fun _ => locatesReturn locatesTrailing fun _ => ⟨_, rfl⟩
  refine locatesBind locatesUleb128 fun _ => locatesBind (locatesArray 4) fun codecId => ?_
  refine locatesBind locatesUleb128 fun _ => locatesBind locatesI16 fun _ => ?_
  exact locatesReturn (locatesDecoderConfig codecId) fun _ => ⟨_, rfl⟩

theorem locatesParamDefinition : Locates lo hi 0 0 readParamDefinition := by
  refine locatesBind locatesUleb128 fun _ => locatesBind locatesUleb128 fun _ => ?_
  refine locatesBind locatesBool fun mode => locatesBind (locatesU8 (n := 7) (by omega)) fun _ => ?_
  split
  · exact locatesPure _
  · refine locatesReturn ?_ fun _ => ⟨_, rfl⟩
    refine locatesBind locatesUleb128 fun _ => locatesBind locatesUleb128 fun constant => ?_
    refine locatesReturn ?_ fun _ => ⟨_, rfl⟩
    unfold readSubblockDurations
    split
    · exact locatesCounted locatesUleb128
    · exact locatesPure _

theorem locatesAudioElementParam : Locates lo hi 0 0 readAudioElementParam := by
  refine locatesBind locatesUleb128 fun type => ?_
  split
  · refine locatesBind locatesParamDefinition fun _ => locatesBind (locatesU8 (n := 3) (by omega)) fun _ => ?_
    refine locatesBind (locatesU8 (n := 5) (by omega)) fun _ => locatesBind (locatesU8 (n := 4) (by omega)) fun _ => ?_
    exact locatesReturn (locatesU8 (n := 4) (by omega)) fun _ => ⟨_, rfl⟩
  split
  · exact locatesReturn locatesParamDefinition fun _ => ⟨_, rfl⟩
  · exact locatesBind locatesUleb128 fun _ => locatesReturn (locatesSpan _) fun _ => ⟨_, rfl⟩

theorem locatesChannelAudioLayerConfig : Locates lo hi 0 0 readChannelAudioLayerConfig := by
  refine locatesBind (locatesU8 (n := 4) (by omega)) fun bits => locatesBind locatesBool fun gain => ?_
  refine locatesBind locatesBool fun _ => locatesBind (locatesU8 (n := 2) (by omega)) fun _ => ?_
  refine locatesBind locatesOctet fun _ => locatesBind locatesOctet fun _ => locatesBind (χ := 0) ?_ fun _ => ?_
  · unfold readOutputGain
    split
    · refine locatesBind (locatesU8 (n := 6) (by omega)) fun _ => locatesBind (locatesU8 (n := 2) (by omega)) fun _ => ?_
      exact locatesReturn locatesI16 fun _ => ⟨_, rfl⟩
    · exact locatesPure _
  · refine locatesReturn ?_ fun _ => ⟨_, rfl⟩
    unfold readLoudspeakerLayout
    split
    · exact locatesPure _
    · exact locatesReturn locatesOctet fun _ => ⟨_, rfl⟩

theorem locatesAmbisonicsConfig : Locates lo hi 0 0 readAmbisonicsConfig := by
  refine locatesPosition fun start behind before => locatesBind locatesUleb128 fun mode => ?_
  split
  · refine locatesBind locatesOctet fun _ => locatesBind locatesOctet fun _ => ?_
    refine locatesBind locatesRemaining fun _ => locatesBind (locatesEnsure (pointsInput _ behind before)) fun _ => ?_
    exact locatesReturn (locatesSpan _) fun _ => ⟨_, rfl⟩
  split
  · refine locatesBind locatesOctet fun _ => locatesBind locatesOctet fun _ => locatesBind locatesOctet fun _ => ?_
    refine locatesBind locatesRemaining fun _ => locatesBind (locatesEnsure (pointsInput _ behind before)) fun _ => ?_
    exact locatesReturn (locatesMany locatesI16 _) fun _ => ⟨_, rfl⟩
  · exact locatesPure _

theorem locatesAudioElementType (typeValue : UInt8) : Locates lo hi 0 0 (readAudioElementType typeValue) := by
  unfold readAudioElementType
  split
  · refine locatesReturn (locatesPosition fun start behind before => ?_) fun _ => ⟨_, rfl⟩
    refine locatesBind (locatesUnsigned (n := 3) (by omega)) fun _ => locatesBind (locatesU8 (n := 5) (by omega)) fun _ => ?_
    exact locatesReturn (locatesBounded locatesChannelAudioLayerConfig behind before _) fun _ => ⟨_, rfl⟩
  split
  · exact locatesReturn locatesAmbisonicsConfig fun _ => ⟨_, rfl⟩
  · exact locatesReturn locatesTrailing fun _ => ⟨_, rfl⟩

theorem locatesAudioElement : Locates lo hi 0 0 readAudioElement := by
  refine locatesBind ?_ fun _ => locatesReturn locatesTrailing fun _ => ⟨_, rfl⟩
  refine locatesBind locatesUleb128 fun _ => locatesBind (locatesU8 (n := 3) (by omega)) fun type => ?_
  refine locatesBind (locatesU8 (n := 5) (by omega)) fun _ => locatesBind locatesUleb128 fun _ => ?_
  refine locatesBind (locatesCounted locatesUleb128) fun _ => ?_
  refine locatesBind (locatesCounted locatesAudioElementParam) fun _ => ?_
  exact locatesReturn (locatesAudioElementType type) fun _ => ⟨_, rfl⟩

theorem locatesStrings (count : Nat) : Locates lo hi 0 0 (readStrings count) :=
  locatesPosition fun _ behind before =>
    locatesBounded (locatesReturn locatesString fun _ => ⟨_, rfl⟩) behind before count

theorem locatesMixGainParamDefinition : Locates lo hi 0 0 readMixGainParamDefinition :=
  locatesBind locatesParamDefinition fun _ => locatesReturn locatesI16 fun _ => ⟨_, rfl⟩

theorem locatesRenderingConfig : Locates lo hi 0 0 readRenderingConfig := by
  refine locatesBind (locatesU8 (n := 2) (by omega)) fun _ => locatesBind (locatesU8 (n := 6) (by omega)) fun _ => ?_
  exact locatesBind locatesUleb128 fun _ => locatesReturn (locatesSpan _) fun _ => ⟨_, rfl⟩

theorem locatesSubMixAudioElement (countLabel : Nat) : Locates lo hi 0 0 (readSubMixAudioElement countLabel) := by
  refine locatesBind locatesUleb128 fun _ => locatesBind (locatesStrings countLabel) fun _ => ?_
  refine locatesBind locatesRenderingConfig fun _ => ?_
  exact locatesReturn locatesMixGainParamDefinition fun _ => ⟨_, rfl⟩

theorem locatesLoudness : Locates lo hi 0 0 readLoudness := by
  refine locatesBind locatesOctet fun infoType => locatesBind locatesI16 fun _ => locatesBind locatesI16 fun _ => ?_
  refine locatesBind (χ := 0) ?_ fun _ => locatesBind (χ := 0) ?_ fun _ => locatesReturn ?_ fun _ => ⟨_, rfl⟩
  · unfold readTruePeak
    split
    · exact locatesPure _
    · exact locatesReturn locatesI16 fun _ => ⟨_, rfl⟩
  · unfold readAnchored
    split
    · exact locatesPure _
    refine locatesPosition fun start behind before => locatesBind locatesOctet fun count => ?_
    refine locatesBind locatesRemaining fun _ => locatesBind (locatesEnsure (pointsInput _ behind before)) fun _ => ?_
    refine locatesReturn (locatesMany ?_ _) fun _ => ⟨_, rfl⟩
    exact locatesBind locatesOctet fun _ => locatesReturn locatesI16 fun _ => ⟨_, rfl⟩
  · unfold readLoudnessExtension
    split
    · exact locatesPure _
    · exact locatesBind locatesUleb128 fun _ => locatesReturn (locatesSpan _) fun _ => ⟨_, rfl⟩

theorem locatesLayoutWithLoudness : Locates lo hi 0 0 readLayoutWithLoudness := by
  refine locatesBind (locatesU8 (n := 2) (by omega)) fun layoutType => locatesBind (χ := 0) ?_ fun layout => ?_
  · unfold readLayout
    split
    · refine locatesBind (locatesU8 (n := 4) (by omega)) fun _ => ?_
      exact locatesReturn (locatesU8 (n := 2) (by omega)) fun _ => ⟨_, rfl⟩
    · exact locatesReturn (locatesU8 (n := 6) (by omega)) fun _ => ⟨_, rfl⟩
  · exact locatesReturn locatesLoudness fun _ => ⟨_, rfl⟩

theorem locatesSubMix (countLabel : Nat) : Locates lo hi 0 0 (readSubMix countLabel) := by
  refine locatesBind (locatesCounted (locatesSubMixAudioElement countLabel)) fun _ => ?_
  refine locatesBind locatesMixGainParamDefinition fun _ => ?_
  exact locatesReturn (locatesCounted locatesLayoutWithLoudness) fun _ => ⟨_, rfl⟩

theorem locatesMixPresentation : Locates lo hi 0 0 readMixPresentation := by
  refine locatesBind ?_ fun _ => locatesReturn locatesTrailing fun _ => ⟨_, rfl⟩
  refine locatesBind locatesUleb128 fun _ => locatesBind (χ := 0) ?_ fun countLabel => ?_
  · refine locatesPosition fun start behind before => locatesBind locatesUleb128 fun _ => ?_
    refine locatesBind locatesRemaining fun _ => locatesBind (locatesEnsure (pointsInput _ behind before)) fun _ => ?_
    exact locatesPure _
  · refine locatesBind (locatesStrings countLabel) fun _ => locatesBind (locatesStrings countLabel) fun _ => ?_
    exact locatesReturn (locatesCounted (locatesSubMix countLabel)) fun _ => ⟨_, rfl⟩

theorem locatesAudioFrame (header : ObuHeader) : Locates lo hi 0 0 (readAudioFrame header) := by
  refine locatesBind (locatesPosition fun start behind before => ?_) fun _ => locatesReturn locatesTrailing fun _ => ⟨_, rfl⟩
  split
  · exact locatesPure _
  · exact locatesBind (locatesEnsure (pointsInput _ behind before)) fun _ => locatesUleb128

theorem locatesMixGain (animation : AnimationType) {start : Nat} (behind : lo ≤ start) (before : start ≤ hi) :
    Locates lo hi 0 0 (readMixGainParameterData animation start) := by
  cases animation with
  | step => exact locatesReturn locatesI16 fun _ => ⟨_, rfl⟩
  | linear => exact locatesBind locatesI16 fun _ => locatesReturn locatesI16 fun _ => ⟨_, rfl⟩
  | bezier =>
    refine locatesBind locatesI16 fun _ => locatesBind locatesI16 fun _ => ?_
    exact locatesBind locatesI16 fun _ => locatesReturn locatesOctet fun _ => ⟨_, rfl⟩
  | reserved value => exact locatesThrow (pointsInput _ behind before)

theorem locatesGains (flag : UInt32) (n index : Nat) : Locates lo hi 0 0 (readGains flag n index) := by
  induction n generalizing index with
  | zero => exact locatesPure _
  | succ n ih =>
    refine locatesBind ?_ fun _ => locatesReturn (ih _) fun _ => ⟨_, rfl⟩
    unfold readGain
    split
    · exact locatesOctet
    · exact locatesPure _

theorem locatesReconGainLayers (present : List Bool) : Locates lo hi 0 0 (readReconGainLayers present) := by
  induction present with
  | nil => exact locatesPure _
  | cons layer present ih =>
    refine locatesBind ?_ fun _ => locatesReturn ih fun _ => ⟨_, rfl⟩
    unfold readReconGainLayer
    split
    · exact locatesBind locatesUleb128 fun flag => locatesReturn (locatesGains flag 12 0) fun _ => ⟨_, rfl⟩
    · exact locatesPure _

theorem locatesParameterData (context : ParameterDataContext) : Locates lo hi 0 0 (readParameterData context) := by
  refine locatesPosition fun start behind before => ?_
  cases context with
  | mixGain => exact locatesBind locatesUleb128 fun _ => locatesReturn (locatesMixGain _ behind before) fun _ => ⟨_, rfl⟩
  | demixing =>
    refine locatesBind (locatesU8 (n := 3) (by omega)) fun _ => ?_
    exact locatesReturn (locatesU8 (n := 5) (by omega)) fun _ => ⟨_, rfl⟩
  | reconGain present => exact locatesReturn (locatesReconGainLayers present) fun _ => ⟨_, rfl⟩
  | reserved value =>
    refine locatesBind (locatesEnsure (pointsInput _ behind before)) fun _ => ?_
    exact locatesBind locatesUleb128 fun _ => locatesReturn (locatesSpan _) fun _ => ⟨_, rfl⟩

theorem locatesSubblocks (included : Bool) (context : ParameterDataContext) {start : Nat} (behind : lo ≤ start)
    (before : start ≤ hi) (n total : Nat) : Locates lo hi 0 0 (readSubblocks included context start n total) := by
  induction n generalizing total with
  | zero => exact locatesPure _
  | succ n ih =>
    refine locatesBind (χ := 0) ?_ fun duration => locatesBind (locatesOrThrow fun e failed => ?_) fun total => ?_
    · unfold readSubblockDuration
      split
      · exact locatesReturn locatesUleb128 fun _ => ⟨_, rfl⟩
      · exact locatesPure _
    · unfold addDuration at failed
      split at failed
      · split at failed <;> cases failed
        exact pointsInput _ behind before
      · cases failed
    · exact locatesBind (locatesParameterData context) fun _ => locatesReturn (ih total) fun _ => ⟨_, rfl⟩

theorem subblocksImpliedByError {duration constantSubblockDuration : UInt32} {at' : Location} {e : Error}
    (failed : subblocksImpliedBy duration constantSubblockDuration at' = .error e) : e.location = at' := by
  unfold subblocksImpliedBy at failed
  split at failed
  · cases failed
    rfl
  simp only at failed
  split at failed
  · cases failed
  split at failed
  · cases failed
  · cases failed
    rfl

theorem subblocksOfDefinitionError {definition : ParamDefinition} {at' : Location} {e : Error}
    (failed : subblocksOfDefinition definition at' at' at' = .error e) : e.location = at' := by
  unfold subblocksOfDefinition at failed
  split at failed
  · cases failed
    rfl
  split at failed
  · unfold u32TryFrom at failed
    split at failed <;> cases failed
    rfl
  · exact subblocksImpliedByError failed

theorem locatesBlockDurations (definition : ParamDefinition) {start : Nat} (behind : lo ≤ start) (before : start ≤ hi) :
    Locates lo hi 0 0 (readBlockDurations definition start) := by
  unfold readBlockDurations
  split
  · refine locatesBind locatesUleb128 fun duration => locatesBind locatesUleb128 fun constant => ?_
    refine locatesReturn ?_ fun _ => ⟨_, rfl⟩
    unfold readNumSubblocks
    split
    · exact locatesUleb128
    · exact locatesOrThrow fun e failed => ⟨start, subblocksImpliedByError failed, behind, before⟩
  · refine locatesReturn (locatesOrThrow fun e failed => ?_) fun _ => ⟨_, rfl⟩
    exact ⟨start, subblocksOfDefinitionError failed, behind, before⟩

theorem locatesParameterBlock (registry : ParamDefinitionRegistry) : Locates lo hi 0 0 (readParameterBlock registry) := by
  refine locatesPosition fun start behind before => locatesBind (locatesPeek locatesUleb128) fun peeked => ?_
  refine locatesBind (locatesOrThrow fun e failed => ?_) fun registered => ?_
  · cases found : registry.get peeked with
    | none => rw [found] at failed; cases failed; exact pointsInput _ behind before
    | some registered => rw [found] at failed; cases failed
  refine locatesBind locatesUleb128 fun id => locatesBind (locatesEnsure (pointsInput _ behind before)) fun _ => ?_
  refine locatesBind (locatesBlockDurations _ behind before) fun durations => ?_
  refine locatesBind (locatesOrThrow fun e failed => ?_) fun _ => locatesBind locatesRemaining fun remaining => ?_
  · unfold checkSingleSubblock at failed
    split at failed <;> cases failed
    exact ⟨start, rfl, behind, before⟩
  refine locatesBind (locatesEnsure (pointsInput _ behind before)) fun _ => ?_
  refine locatesBind (locatesSubblocks _ _ behind before _ _) fun subblocks => ?_
  exact locatesReturn (locatesEnsure (pointsInput _ behind before)) fun _ => ⟨_, rfl⟩

theorem locatesFields (obuType : ObuType) (trimmed extended : Bool) :
    Locates lo hi 0 0 (readFieldsAfterObuSize obuType trimmed extended) := by
  refine locatesBind (χ := 0) ?_ fun _ => locatesReturn ?_ fun _ => ⟨_, rfl⟩
  · unfold readTypeSpecific
    split
    · exact locatesBind locatesUleb128 fun _ => locatesReturn locatesUleb128 fun _ => ⟨_, rfl⟩
    split
    · exact locatesPure _
    · exact locatesPure _
  · unfold readExtension
    split
    · exact locatesReturn (locatesBind locatesUleb128 fun _ => locatesSpan _) fun _ => ⟨_, rfl⟩
    · exact locatesPure _

end

theorem pointsRebased {lo hi base n : Nat} {e : Error} (points : PointsInto 0 n e) (behind : lo ≤ base)
    (room : base + n ≤ hi) (fits : hi ≤ u64Max) : PointsInto lo hi (e.withInputBase base) := by
  obtain ⟨o, location, _, inside⟩ := points
  refine ⟨base + o, ?_, by omega, by omega⟩
  unfold Error.withInputBase
  simp only [location, Nat.min_eq_left (show base + o ≤ u64Max by omega)]

theorem spanRoom {c c' : BitCursor} {n : Nat} {span : Bytes} (ok : readUint8Span n c = .ok span c') :
    span.length = n ∧ c.bytePos + n ≤ c.data.length := by
  obtain ⟨aligned, length, tail, split, _⟩ := readSpanSource ok
  have total := congrArg List.length split
  have inside := insideData c
  rw [BitCursor.restLength, List.length_append, bytesBitsLength, length] at total
  simp only [BitCursor.bitsRemaining] at total
  exact ⟨length, by omega⟩

section

variable {lo hi : Nat}

theorem validateObuSizeError {obuSize : UInt32} {n : Nat} {at' : Location} {e : Error}
    (failed : validateObuSize obuSize n at' = .error e) : e.location = at' := by
  unfold validateObuSize at failed
  split at failed
  · cases failed
    rfl
  split at failed
  · cases failed
    rfl
  · cases failed

theorem obuSizeLocated {c : BitCursor} (length : c.data.length = hi) (behind : lo < c.bytePos) (aligned : c.bitOff = 0) :
    Lands lo hi 0 c (readObuSize c) := by
  have before := length ▸ insideData c
  have onward : Locates lo hi 0 0 (do
      let obuSize ← readUleb128
      let behind ← bytePosition
      ensure (c.bytePos ≤ behind) (inputError .obuTooLarge c.bytePos)
      orThrow (validateObuSize obuSize (behind - c.bytePos) (.inputOffset (c.bytePos - 1)))
      pure obuSize) := by
    refine locatesBind locatesUleb128 fun obuSize => locatesPosition fun stop _ _ => ?_
    refine locatesBind (locatesEnsure (pointsInput _ (Nat.le_of_lt behind) before)) fun _ => ?_
    refine locatesReturn (locatesOrThrow fun e failed => ?_) fun _ => ⟨_, rfl⟩
    exact ⟨c.bytePos - 1, validateObuSizeError failed, by omega, by omega⟩
  unfold readObuSize
  rw [bindOf _ (bytePositionOk c)]
  exact onward c length (Nat.le_of_lt behind) aligned

theorem locatesFirstByte : Locates lo hi 0 0 readFirstByte := by
  refine locatesBind (locatesU8 (n := 5) (by omega)) fun _ => locatesBind locatesBool fun _ => ?_
  exact locatesBind locatesBool fun _ => locatesReturn locatesBool fun _ => ⟨_, rfl⟩

theorem locatesWindow (fits : hi ≤ u64Max) {obuStart : Nat} (behind : lo ≤ obuStart) (before : obuStart ≤ hi)
    (obuType : ObuType) (redundant trimmed extended : Bool) (obuSize : UInt32) : Locates lo hi 0 0 (do
      let afterSizeStart ← bytePosition
      let available ← bytesRemaining
      let window ← peek (subReader (min obuSize.toNat available))
      match readFieldsAfterObuSize obuType trimmed extended window with
      | .error e _ => throw (windowError (obuSize.toNat ≤ available) obuStart afterSizeStart e)
      | .ok (typeSpecific, extension) behind => do
        let _ ← readUint8Span behind.bytePosition
        pure ((⟨obuType, redundant, typeSpecific, extension⟩ : ObuHeader), obuSize, behind.bytePosition)) := by
  intro c length start aligned
  rw [bindOf _ (bytePositionOk c), bindOf _ (bytesRemainingOk c)]
  cases windowed : readUint8Span (min obuSize.toNat c.bytesRemaining) c with
  | error e c' =>
    have peeked : peek (subReader (min obuSize.toNat c.bytesRemaining)) c = .error e c := by
      unfold peek subReader
      rw [bindError _ windowed]
    rw [bindError _ peeked]
    exact locatesError (locatesSpan _) length start aligned windowed
  | ok span c' =>
    obtain ⟨size, room⟩ := spanRoom windowed
    have peeked : peek (subReader (min obuSize.toNat c.bytesRemaining)) c = .ok (BitCursor.new span) c := by
      unfold peek subReader
      rw [bindOf _ windowed]
      rfl
    rw [bindOf _ peeked]
    cases fields : readFieldsAfterObuSize obuType trimmed extended (BitCursor.new span) with
    | error e c'' =>
      have located : Locates 0 span.length 0 0 (readFieldsAfterObuSize obuType trimmed extended) :=
        locatesFields obuType trimmed extended
      have points := locatesError located rfl (Nat.zero_le _) rfl fields
      simp only
      change PointsInto lo hi (windowError _ obuStart c.bytePos e)
      unfold windowError
      split
      · exact pointsInput _ behind before
      · exact pointsRebased points start (by omega) fits
    | ok values c'' =>
      exact locatesReturn (locatesSpan c''.bytePosition) (fun _ => ⟨_, rfl⟩) c length start aligned

theorem locatesHeaderParts (fits : hi ≤ u64Max) : Locates lo hi 0 0 readObuHeaderParts := by
  intro c length behind aligned
  unfold readObuHeaderParts
  rw [bindOf _ (bytePositionOk c)]
  cases first : readFirstByte c with
  | error e c' =>
    rw [bindError _ first]
    exact locatesError locatesFirstByte length behind aligned first
  | ok parts c1 =>
    obtain ⟨data1, _, aligned1⟩ := locatesOk locatesFirstByte length behind aligned first
    obtain ⟨bs, tail, split, moved, raw, _, _, bits⟩ := consumesFirstByte c parts c1 first
    have size8 : bs.length = 8 * 1 := by rw [bits]; simp [firstByteBits]
    have position : c1.bytePos = c.bytePos + 1 := by
      rw [moved, size8]
      exact (advanceAligned aligned (by rw [split, List.length_append]; omega)).1
    rw [bindOf _ first]
    simp only
    have located : Lands lo hi 0 c1 (readObuSize c1) :=
      obuSizeLocated (by rw [data1, length]) (by omega) aligned1
    cases sized : readObuSize c1 with
    | error e c' =>
      rw [sized] at located
      rw [bindError _ sized]
      exact located
    | ok obuSize c2 =>
      rw [sized] at located
      obtain ⟨data2, behind2, aligned2⟩ := located
      rw [bindOf _ sized]
      have window := locatesWindow fits behind (length ▸ insideData c) parts.1 parts.2.1 parts.2.2.1 parts.2.2.2 obuSize
        c2 (by rw [data2, data1, length]) behind2 aligned2
      unfold Lands at window ⊢
      rw [data2, data1] at window
      exact window

theorem locatesInspectHeader (fits : hi ≤ u64Max) : Locates lo hi 0 0 inspectHeader := by
  refine locatesBind (locatesReturn (locatesHeaderParts fits) fun _ => ⟨_, rfl⟩) fun header => ?_
  exact locatesPosition fun _ _ _ => locatesPure _

theorem locatesObuSpan (fits : hi ≤ u64Max) : Locates lo hi 0 0 readObuSpan := by
  refine locatesPosition fun start behind before => locatesBind (locatesHeaderParts fits) fun parts => ?_
  refine locatesBind (locatesEnsure (pointsInput _ behind before)) fun _ => ?_
  exact locatesReturn (locatesSpan _) fun _ => ⟨_, rfl⟩

theorem payloadRoom (fits : hi ≤ u64Max) {c c' : BitCursor} {inspected header : ObuHeader} {base : Nat} {payload : Bytes}
    (length : c.data.length = hi) (behind : lo ≤ c.bytePos) (aligned : c.bitOff = 0)
    (ahead : peek inspectHeader c = .ok (inspected, base) c) (span : readObuSpan c = .ok (header, payload) c') :
    lo ≤ base ∧ base + payload.length ≤ hi := by
  unfold readObuSpan at span
  rw [bindOf _ (bytePositionOk c)] at span
  obtain ⟨⟨h, size, k⟩, c1, parts, span⟩ := bindOk span
  simp only at span
  obtain ⟨_, c2, checked, spanned⟩ := bindOk span
  obtain ⟨_, same⟩ := ensureOk checked
  subst same
  obtain ⟨bytes, c3, taken, last⟩ := bindOk spanned
  cases last
  obtain ⟨data, behind', _⟩ := locatesOk (locatesHeaderParts fits) length behind aligned parts
  obtain ⟨size', room⟩ := spanRoom taken
  have inspection : inspectHeader c = .ok (header, c2.bytePos) c2 := by
    unfold inspectHeader readObuHeader
    simp only [bind_assoc, pure_bind]
    rw [bindOf _ parts]
    rfl
  unfold peek at ahead
  rw [inspection] at ahead
  cases ahead
  rw [data, length] at room
  exact ⟨behind', by rw [size']; exact room⟩

theorem payloadPoints {T : Type} {f : Reader T} {payload : Bytes} {base : Nat} {e : Error}
    (locates : Locates 0 payload.length 0 0 f) (behind : lo ≤ base) (room : base + payload.length ≤ hi)
    (fits : hi ≤ u64Max) (failed : parsePayload (rebased base f) payload = .error e) : PointsInto lo hi e := by
  unfold parsePayload rebased at failed
  cases run : f (BitCursor.new payload) with
  | error e' c =>
    rw [run] at failed
    cases failed
    exact pointsRebased (locatesError locates rfl (Nat.zero_le _) rfl run) behind room fits
  | ok v c =>
    -- what is left over is whole bytes, so it can always be taken
    obtain ⟨_, _, aligned⟩ := locatesOk locates rfl (Nat.zero_le _) rfl run
    rw [run] at failed
    have taken : ∃ left c', readUint8Span c.bytesRemaining c = .ok left c' := by
      unfold readUint8Span
      simp [BitCursor.isByteAligned, aligned]
    obtain ⟨left, c', taken⟩ := taken
    simp only [taken] at failed
    cases failed

theorem obuPoints {T U : Type} (fits : hi ≤ u64Max) {f : ObuHeader → Reader T} {k : Obu T → Reader U} {c c' : BitCursor}
    {inspected : ObuHeader} {base : Nat} {e : Error} (length : c.data.length = hi) (behind : lo ≤ c.bytePos)
    (aligned : c.bitOff = 0) (ahead : peek inspectHeader c = .ok (inspected, base) c)
    (locates : ∀ header n, Locates 0 n 0 0 (f header)) (last : ∀ obu, ∃ u, k obu = pure u)
    (failed : (readObuWithHeader (fun header => rebased base (f header)) >>= k) c = .error e c') : PointsInto lo hi e := by
  unfold readObuWithHeader at failed
  cases span : readObuSpan c with
  | error e' c1 =>
    rw [bindError _ (bindError _ span)] at failed
    cases failed
    exact locatesError (locatesObuSpan fits) length behind aligned span
  | ok parts c1 =>
    obtain ⟨header, payload⟩ := parts
    obtain ⟨start, room⟩ := payloadRoom fits length behind aligned ahead span
    cases parsed : parsePayload (rebased base (f header)) payload with
    | error e' =>
      have thrown : (orThrow (parsePayload (rebased base (f header)) payload) : Reader _) c1 = .error e' c1 := by
        rw [parsed]
        rfl
      rw [bindError _ ((bindOf _ span).trans (bindError _ thrown))] at failed
      cases failed
      exact payloadPoints (locates header _) start room fits parsed
    | ok result =>
      obtain ⟨u, same⟩ := last ⟨header, result.1, result.2⟩
      have read : (readObuSpan >>= fun parts => orThrow (parsePayload (rebased base (f parts.1)) parts.2) >>=
          fun result => (pure ⟨parts.1, result.1, result.2⟩ : Reader (Obu T))) c = .ok ⟨header, result.1, result.2⟩ c1 := by
        rw [bindOf _ span]
        simp only [orThrowOf _ parsed]
        rfl
      rw [bindOf _ read, same] at failed
      cases failed

theorem nextObuPoints (fits : hi ≤ u64Max) {registry : ParamDefinitionRegistry} {c c' : BitCursor} {e : Error}
    (length : c.data.length = hi) (behind : lo ≤ c.bytePos) (aligned : c.bitOff = 0)
    (failed : nextObu registry c = .error e c') : PointsInto lo hi e := by
  unfold nextObu at failed
  cases ahead : peek inspectHeader c with
  | error e' c1 =>
    rw [bindError _ ahead] at failed
    cases failed
    exact locatesError (locatesPeek (locatesInspectHeader fits)) length behind aligned ahead
  | ok inspected c1 =>
    obtain ⟨inspected, base⟩ := inspected
    cases peekOk ahead
    rw [bindOf _ ahead] at failed
    have arm {T U : Type} {f : ObuHeader → Reader T} {k : Obu T → Reader U} {c' : BitCursor} {e : Error}
        (locates : ∀ header n, Locates 0 n 0 0 (f header)) (last : ∀ obu, ∃ u, k obu = pure u)
        (failed : (readObuWithHeader (fun header => rebased base (f header)) >>= k) c = .error e c') :
        PointsInto lo hi e := obuPoints fits length behind aligned ahead locates last failed
    cases type : inspected.obuType with
    | iaSequenceHeader =>
      simp only [type] at failed
      exact arm (fun _ _ => locatesIaSequenceHeader) (fun _ => ⟨_, rfl⟩) failed
    | codecConfig =>
      simp only [type] at failed
      exact arm (fun _ _ => locatesCodecConfig) (fun _ => ⟨_, rfl⟩) failed
    | audioElement =>
      simp only [type] at failed
      exact arm (fun _ _ => locatesAudioElement) (fun _ => ⟨_, rfl⟩) failed
    | mixPresentation =>
      simp only [type] at failed
      exact arm (fun _ _ => locatesMixPresentation) (fun _ => ⟨_, rfl⟩) failed
    | parameterBlock =>
      simp only [type] at failed
      cases inspection : peek (readObuWith (rebased base (@readUleb128 sourceForms))) c with
      | error e' c1 =>
        rw [bindError _ inspection] at failed
        cases failed
        unfold peek at inspection
        cases run : readObuWith (rebased base (@readUleb128 sourceForms)) c with
        | ok obu c2 => rw [run] at inspection; cases inspection
        | error e'' c2 =>
          rw [run] at inspection
          cases inspection
          exact arm (k := fun obu => pure obu) (fun _ _ => locatesUleb128) (fun _ => ⟨_, rfl⟩) (bindError _ run)
      | ok obu c1 =>
        cases peekOk inspection
        rw [bindOf _ inspection] at failed
        split at failed
        · exact arm (fun _ _ => locatesParameterBlock registry) (fun _ => ⟨_, rfl⟩) failed
        · exact arm (fun _ _ => locatesTrailing) (fun _ => ⟨_, rfl⟩) failed
    | temporalDelimiter =>
      simp only [type] at failed
      exact arm (fun _ _ => locatesPure _) (fun _ => ⟨_, rfl⟩) failed
    | reserved raw =>
      simp only [type] at failed
      exact arm (fun _ _ => locatesTrailing) (fun _ => ⟨_, rfl⟩) failed
    | audioFrame =>
      simp only [type] at failed
      exact arm (fun header _ => locatesAudioFrame header) (fun _ => ⟨_, rfl⟩) failed
    | audioFrameId id =>
      simp only [type] at failed
      exact arm (fun header _ => locatesAudioFrame header) (fun _ => ⟨_, rfl⟩) failed

end

theorem parseErrorPoints {input : Bytes} (fits : input.length ≤ u64Max) {e : Error}
    (failed : parseSequence input = .error e) : ∃ p o, FailsAt input p e ∧ e.location = .inputOffset o ∧
      p ≤ o ∧ o ≤ input.length := by
  obtain ⟨xs, s, yields, fails, at'⟩ := parseSequenceError failed
  have ready := (yieldsSource yields (newReady input)).1
  have data := (yieldsWalk yields (newReady input)).1
  have points : PointsInto s.bytePosition input.length e := by
    unfold SequenceReader.next at fails
    rw [ready.running, Bool.false_or] at fails
    split at fails
    · cases fails
    split at fails
    · cases fails
    · rename_i e' c step
      cases fails
      exact nextObuPoints fits (congrArg List.length data) (Nat.le_refl _) ready.aligned step
  obtain ⟨o, location, behind, before⟩ := points
  exact ⟨_, o, at', location, behind, before⟩

theorem parseErrorPointsShort : ∃ p o, FailsAt [0x20, 0, 0xf8, 1, 0] p ⟨.unexpectedEndOfInput, .inputOffset 4⟩ ∧
    (⟨.unexpectedEndOfInput, .inputOffset 4⟩ : Error).location = .inputOffset o ∧ p ≤ o ∧ o ≤ 5 :=
  parseErrorPoints (by decide) (by decide +kernel)

end Iamf.Wire
