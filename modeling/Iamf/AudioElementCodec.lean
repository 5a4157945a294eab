import Iamf.AudioElement

/-! The two directions of the Audio Element syntax agree. -/
namespace Iamf.Wire
open Bits BitString TapeCodec ReadTape WriteTape

theorem pairedAudioElementParam (v : AudioElementParam) :
    Paired 0 0 (writeAudioElementParam v) readAudioElementParam v := by
  refine pairedGuard fun plain => ?_
  refine pairedBind (pairedUleb128 0 v.paramDefinitionType) ?_
  cases v with
  | demixing definition mode reserved w wReserved =>
    rw [AudioElementParam.paramDefinitionType, if_pos rfl]
    refine pairedBind (pairedParamDefinition definition) ?_
    refine pairedBind (pairedU8 0 mode (by omega)) ?_
    refine pairedBind (pairedU8 _ reserved (by omega)) ?_
    refine pairedBind (pairedU8 _ w (by omega)) ?_
    exact pairedReturn (pairedPhase (pairedU8 _ wReserved (by omega)) rfl) rfl
  | reconGain definition =>
    rw [AudioElementParam.paramDefinitionType, if_neg (by decide), if_pos rfl]
    exact pairedReturn (pairedParamDefinition definition) rfl
  | extension type bytes =>
    simp only [aliasesParam, Bool.not_eq_true', Bool.or_eq_false_iff, beq_eq_false_iff_ne] at plain
    rw [AudioElementParam.paramDefinitionType, if_neg (show type ≠ paramDefinitionDemixing from plain.1),
      if_neg (show type ≠ paramDefinitionReconGain from plain.2)]
    exact pairedCount fun fits => pairedReturn (pairedBytes fits.symm) rfl

theorem hungryAudioElementParam : Hungry readAudioElementParam := hungryBind _ hungryUleb128

theorem pairedOutputGain (v : Option OutputGain) :
    Paired 0 0 (writeOutputGain v) (readOutputGain v.isSome) v := by
  cases v with
  | none => exact pairedPure 0 none
  | some gain =>
    refine pairedBind (pairedU8 0 gain.flags (by omega)) ?_
    refine pairedBind (pairedU8 _ gain.reserved (by omega)) ?_
    exact pairedReturn (pairedPhase (pairedI16 _ gain.gain) rfl) rfl

theorem pairedLoudspeakerLayout {v : LoudspeakerLayout} (plain : v.Plain) :
    Paired 0 0 (writeExpandedLayout v.expandedLayout) (readLoudspeakerLayout v.value) v := by
  cases v with
  | expanded layout =>
    refine pairedReturn (pairedPhase (pairedU8 0 layout.value (by omega)) rfl) ?_
    rw [show ExpandedLoudspeakerLayout.fromValue layout.value = layout from plain]
  | _ =>
    unfold readLoudspeakerLayout
    rw [show LoudspeakerLayout.fromValue _ = some _ from plain]
    exact pairedPure 0 _

theorem pairedChannelAudioLayerConfig {v : ChannelAudioLayerConfig} (plain : v.loudspeakerLayout.Plain) :
    Paired 0 0 (writeChannelAudioLayerConfig v) readChannelAudioLayerConfig v := by
  refine pairedBind (pairedU8 0 v.loudspeakerLayout.value (by omega)) ?_
  refine pairedBind (pairedBool _ v.outputGain.isSome) ?_
  refine pairedBind (pairedBool _ v.reconGainIsPresent) ?_
  refine pairedBind (pairedU8 _ v.reserved (by omega)) ?_
  refine pairedBind (pairedU8 _ v.substreamCount (by omega)) ?_
  refine pairedBind (pairedPhase (pairedU8 _ v.coupledSubstreamCount (by omega)) (show _ = 0 % 8 from rfl)) ?_
  refine pairedBind (pairedOutputGain v.outputGain) ?_
  exact pairedReturn (pairedLoudspeakerLayout plain) rfl

theorem hungryChannelAudioLayerConfig : Hungry readChannelAudioLayerConfig :=
  hungryBind _ (hungryBind _ (hungryUnsigned (by omega)))

theorem pairedScalableChannelLayoutConfig {v : ScalableChannelLayoutConfig}
    (plain : ∀ layer ∈ v.layers, layer.loudspeakerLayout.Plain) :
    Paired 0 0 (writeScalableChannelLayoutConfig v) readScalableChannelLayoutConfig v := by
  by_cases small : v.layers.length < 2 ^ 3
  · refine pairedPosition fun start => ?_
    refine pairedBind (pairedUnsigned 0 (by omega) (by omega)) ?_
    refine pairedBind (pairedPhase (pairedU8 _ v.reserved (by omega)) (show _ = 0 % 8 from rfl)) ?_
    exact pairedReturn (pairedBounded start hungryChannelAudioLayerConfig
      fun layer among => pairedChannelAudioLayerConfig (plain layer among)) rfl
  · exact .inl (refusesBind _ (refusesUnsigned (by omega) (by omega)))

theorem pairedAmbisonicsConfig (v : AmbisonicsConfig) :
    Paired 0 0 (writeAmbisonicsConfig v) readAmbisonicsConfig v := by
  unfold writeAmbisonicsConfig
  cases checked : checkAmbisonicsConfig v with
  | error e => exact .inl (refusesBind _ (refusesThrow e))
  | ok u =>
    change Paired 0 0 (writeUleb128Minimal v.mode >>= fun _ => writeAmbisonicsFields v) readAmbisonicsConfig v
    refine pairedPosition fun start => pairedBind (pairedUleb128 0 v.mode) ?_
    cases v with
    | mono config =>
      simp only [checkAmbisonicsConfig] at checked
      split_ifs at checked with differs
      have length := Decidable.not_not.mp differs
      rw [AmbisonicsConfig.mode, if_pos rfl]
      refine pairedBind (pairedU8 0 config.outputChannelCount (by omega)) ?_
      refine pairedBind (pairedPhase (pairedU8 _ config.substreamCount (by omega)) (show _ = 0 % 8 from rfl)) ?_
      refine pairedEnough (pairedReturn (pairedBytes length) rfl) fun bs emits => ?_
      rw [emitsUnique emits (emitsBytes _), bytesBitsLength, length]
    | projection config =>
      simp only [checkAmbisonicsConfig] at checked
      split_ifs at checked with differs
      have length := Decidable.not_not.mp differs
      rw [AmbisonicsConfig.mode, if_neg (by decide), if_pos rfl]
      refine pairedBind (pairedU8 0 config.outputChannelCount (by omega)) ?_
      refine pairedBind (pairedU8 _ config.substreamCount (by omega)) ?_
      refine pairedBind (pairedPhase (pairedU8 _ config.coupledSubstreamCount (by omega))
        (show _ = 0 % 8 from rfl)) ?_
      refine pairedEnough ?_ fun bs emits => ?_
      · simp only [length]
        exact pairedReturn (pairedMany fun v _ => pairedPhase (pairedI16 0 v) rfl) rfl
      · obtain ⟨cs, size, emits'⟩ := emitsEach emitsI16 config.demixingMatrix
        rw [emitsUnique emits emits', size, length]
        omega
    | reserved mode =>
      simp only [checkAmbisonicsConfig] at checked
      split_ifs at checked with named
      rw [AmbisonicsConfig.mode, if_neg (not_or.mp named).1, if_neg (not_or.mp named).2]
      exact pairedPure 0 _

def AudioElementType.Settled (trailing : Bytes) : AudioElementType → Prop
  | .channelBased config => ∀ layer ∈ config.layers, layer.loudspeakerLayout.Plain
  | .sceneBased _ => True
  | .reserved _ _ => trailing = []

structure AudioElement.Settled (v : AudioElement) (trailing : Bytes) : Prop where
  own : v.trailing = []
  kind : v.audioElementType.Settled trailing

theorem pairedAudioElementType {v : AudioElementType} {trailing : Bytes} (settled : v.Settled trailing)
    (more : trailing ≠ []) : Paired 0 0 (writeAudioElementType v) (readAudioElementType v.value) v := by
  cases v with
  | channelBased config => exact pairedReturn (pairedScalableChannelLayoutConfig settled) rfl
  | sceneBased config => exact pairedReturn (pairedAmbisonicsConfig config) rfl
  | reserved value raw => exact absurd settled more

theorem pairedLastAudioElementType {v : AudioElementType} (plain : aliasesElementType v = false)
    (settled : v.Settled []) : PairedLast 0 (writeAudioElementType v) (readAudioElementType v.value) v := by
  cases v with
  | channelBased config => exact pairedLastOf (pairedReturn (pairedScalableChannelLayoutConfig settled) rfl)
  | sceneBased config => exact pairedLastOf (pairedReturn (pairedAmbisonicsConfig config) rfl)
  | reserved value raw =>
    simp only [aliasesElementType, Bool.or_eq_false_iff, beq_eq_false_iff_ne] at plain
    unfold readAudioElementType
    rw [AudioElementType.value, if_neg plain.1, if_neg plain.2]
    exact pairedLastReturn (pairedLastTrailing raw) rfl

theorem pairedAudioElementBody {v : AudioElement} (own : v.trailing = [])
    (kind : Paired 0 0 (writeAudioElementType v.audioElementType) (readAudioElementType v.audioElementType.value)
      v.audioElementType) : Paired 0 0 (writeAudioElement v) readAudioElementBody v := by
  obtain ⟨id, reserved, type, codecConfigId, substreams, params, _⟩ := v
  subst own
  refine pairedGuard fun _ => ?_
  refine pairedBind (pairedUleb128 0 id) ?_
  refine pairedBind (pairedU8 _ type.value (by omega)) ?_
  refine pairedBind (pairedPhase (pairedU8 _ reserved (by omega)) (show _ = 0 % 8 from rfl)) ?_
  refine pairedBind (pairedUleb128 0 codecConfigId) ?_
  refine pairedBind (pairedCounted hungryUleb128 fun v _ => pairedUleb128 0 v) ?_
  refine pairedBind (pairedCounted hungryAudioElementParam fun v _ => pairedAudioElementParam v) ?_
  exact pairedBind kind (pairedEmpty 0 _)

theorem pairedLastAudioElementBody {v : AudioElement} (settled : v.Settled []) :
    PairedLast 0 (writeAudioElement v) readAudioElementBody v := by
  obtain ⟨id, reserved, type, codecConfigId, substreams, params, _⟩ := v
  obtain ⟨rfl, kind⟩ := settled
  refine pairedLastGuard fun plain => ?_
  refine pairedLastBind (pairedUleb128 0 id) ?_
  refine pairedLastBind (pairedU8 _ type.value (by omega)) ?_
  refine pairedLastBind (pairedPhase (pairedU8 _ reserved (by omega)) (show _ = 0 % 8 from rfl)) ?_
  refine pairedLastBind (pairedUleb128 0 codecConfigId) ?_
  refine pairedLastBind (pairedCounted hungryUleb128 fun v _ => pairedUleb128 0 v) ?_
  refine pairedLastBind (pairedCounted hungryAudioElementParam fun v _ => pairedAudioElementParam v) ?_
  exact pairedLastEmpty (pairedLastAudioElementType (Bool.not_eq_true' _ |>.mp plain) kind) rfl

theorem audioElementWritesBack : WritesBack readAudioElementBody writeAudioElement AudioElement.Settled := by
  intro v bytes trailing settled ok
  cases trailing with
  | cons byte more =>
    have kind := pairedAudioElementType settled.kind (by simp)
    exact parsePayloadPaired (pairedAudioElementBody settled.own kind) ok (byte :: more)
  | nil =>
    rw [List.append_nil]
    exact parsePayloadLast (pairedLastAudioElementBody settled) ok

theorem consumesAudioElementParam [UlebForm] : Consumes readAudioElementParam fun v bs =>
    Rewrites Canonical (writeAudioElementParam v) bs := by
  refine consumesBind consumesUleb128 fun type b1 r1 => ?_
  split
  · rename_i demixing
    subst demixing
    refine consumesBind consumesParamDefinition fun definition b2 r2 => ?_
    refine consumesBind (consumesU8 Canonical (by omega)) fun mode b3 ⟨_, _, r3⟩ => ?_
    refine consumesBind (consumesU8 Canonical (by omega)) fun reserved b4 ⟨_, _, r4⟩ => ?_
    refine consumesBind (consumesU8 Canonical (by omega)) fun w b5 ⟨_, _, r5⟩ => ?_
    refine consumesBind (consumesU8 Canonical (by omega)) fun wReserved b6 ⟨_, _, r6⟩ => consumesPure ?_
    rw [List.append_nil]
    refine rewritesGuard rfl (rewritesBind r1 ?_)
    exact rewritesBind r2 (rewritesBind r3 (rewritesBind r4 (rewritesBind r5 r6)))
  · split
    · rename_i reconGain
      subst reconGain
      refine consumesBind consumesParamDefinition fun definition b2 r2 => consumesPure ?_
      rw [List.append_nil]
      exact rewritesGuard rfl (rewritesBind r1 r2)
    · rename_i notDemixing notReconGain
      refine consumesBind consumesUleb128 fun size b2 r2 => ?_
      refine consumesBind (consumesSpan size.toNat) fun bytes b3 ⟨length, bits⟩ => consumesPure ?_
      subst bits
      rw [List.append_nil]
      refine rewritesGuard ?_ (rewritesBind r1 (rewritesBind (rewritesCount length r2) (rewritesBytes bytes)))
      rw [Bool.not_eq_true', aliasesParam, Bool.or_eq_false_iff, beq_eq_false_iff_ne, beq_eq_false_iff_ne]
      exact ⟨notDemixing, notReconGain⟩

theorem consumesOutputGain (canonical : Prop) (present : Bool) : Consumes (readOutputGain present) fun v bs =>
    v.isSome = present ∧ Rewrites canonical (writeOutputGain v) bs := by
  cases present with
  | false => exact consumesPure ⟨rfl, rewritesPure⟩
  | true =>
    refine consumesBind (consumesU8 canonical (by omega)) fun flags b1 ⟨_, _, r1⟩ => ?_
    refine consumesBind (consumesU8 canonical (by omega)) fun reserved b2 ⟨_, _, r2⟩ => ?_
    refine consumesBind (consumesI16 canonical) fun gain b3 ⟨_, r3⟩ => consumesPure ?_
    rw [List.append_nil]
    exact ⟨rfl, rewritesBind r1 (rewritesBind r2 r3)⟩

theorem consumesLoudspeakerLayout (canonical : Prop) {layoutBits : UInt8} (small : layoutBits.toNat < 16) :
    Consumes (readLoudspeakerLayout layoutBits) fun v bs => v.value = layoutBits ∧ v.Plain ∧
      Rewrites canonical (writeExpandedLayout v.expandedLayout) bs := by
  unfold readLoudspeakerLayout
  cases found : LoudspeakerLayout.fromValue layoutBits with
  | some layout =>
    obtain ⟨value, expanded, plain⟩ := LoudspeakerLayout.fromValueSome found
    exact consumesPure ⟨value, plain, by rw [expanded]; exact rewritesPure⟩
  | none =>
    have fifteen := LoudspeakerLayout.fromValueNone small found
    refine consumesBind (consumesU8 canonical (by omega)) fun expanded b1 ⟨_, _, r1⟩ => consumesPure ?_
    rw [List.append_nil]
    refine ⟨fifteen.symm, ExpandedLoudspeakerLayout.fromValuePlain expanded, ?_⟩
    rw [LoudspeakerLayout.expandedLayout, writeExpandedLayout, ExpandedLoudspeakerLayout.valueOfFromValue]
    exact r1

theorem consumesChannelAudioLayerConfig (canonical : Prop) : Consumes readChannelAudioLayerConfig fun v bs =>
    Rewrites canonical (writeChannelAudioLayerConfig v) bs ∧ v.loudspeakerLayout.Plain := by
  refine consumesBind (consumesU8 canonical (by omega)) fun layoutBits b1 ⟨_, small, r1⟩ => ?_
  refine consumesBind (consumesBool canonical) fun gainPresent b2 ⟨_, r2⟩ => ?_
  refine consumesBind (consumesBool canonical) fun reconPresent b3 ⟨_, r3⟩ => ?_
  refine consumesBind (consumesU8 canonical (by omega)) fun reserved b4 ⟨_, _, r4⟩ => ?_
  refine consumesBind (consumesU8 canonical (by omega)) fun count b5 ⟨_, _, r5⟩ => ?_
  refine consumesBind (consumesU8 canonical (by omega)) fun coupled b6 ⟨_, _, r6⟩ => ?_
  refine consumesBind (consumesOutputGain canonical gainPresent) fun gain b7 ⟨present, r7⟩ => ?_
  refine consumesBind (consumesLoudspeakerLayout canonical small) fun layout b8 ⟨value, plain, r8⟩ => consumesPure ?_
  subst present value
  rw [List.append_nil]
  refine ⟨?_, plain⟩
  exact rewritesBind r1 (rewritesBind r2 (rewritesBind r3 (rewritesBind r4 (rewritesBind r5 (rewritesBind r6
    (rewritesBind r7 r8))))))

theorem consumesScalableChannelLayoutConfig (canonical : Prop) :
    Consumes readScalableChannelLayoutConfig fun v bs =>
      Rewrites canonical (writeScalableChannelLayoutConfig v) bs ∧ ∀ layer ∈ v.layers, layer.loudspeakerLayout.Plain := by
  refine consumesBind consumesPosition fun start bs empty => ?_
  subst empty
  simp only [List.nil_append]
  refine consumesBind (consumesUnsigned 3) fun numLayers b1 ⟨_, small, bits⟩ => ?_
  refine consumesBind (consumesU8 canonical (by omega)) fun reserved b2 ⟨_, _, r2⟩ => ?_
  refine consumesBind (consumesBounded numLayers start (consumesChannelAudioLayerConfig canonical))
    fun layers b3 ⟨length, r3, plain⟩ => consumesPure ?_
  subst length
  rw [List.append_nil]
  exact ⟨rewritesBind (rewritesUnsigned (by omega) small bits) (rewritesBind r2 r3), plain⟩

section

variable [UlebForm]

theorem consumesAmbisonicsConfig : Consumes readAmbisonicsConfig fun v bs =>
    Rewrites Canonical (writeAmbisonicsConfig v) bs := by
  have checkedOk {v : AmbisonicsConfig} {bs : List Bool} (checked : checkAmbisonicsConfig v = .ok ())
      (next : Rewrites Canonical (writeUleb128Minimal v.mode >>= fun _ => writeAmbisonicsFields v) bs) :
      Rewrites Canonical (writeAmbisonicsConfig v) bs := by
    unfold writeAmbisonicsConfig
    rw [checked]
    exact next
  refine consumesBind consumesPosition fun start bs empty => ?_
  subst empty
  refine consumesBind consumesUleb128 fun mode b1 r1 => ?_
  simp only [List.nil_append]
  split
  · rename_i mono
    subst mono
    refine consumesBind (consumesU8 Canonical (by omega)) fun count b2 ⟨_, _, r2⟩ => ?_
    refine consumesBind (consumesU8 Canonical (by omega)) fun substreams b3 ⟨_, _, r3⟩ => ?_
    refine consumesBind consumesRemaining fun n bs empty => consumesEnsure fun _ => ?_
    subst empty
    refine consumesBind (consumesSpan count.toNat) fun mapping b4 ⟨length, bits⟩ => consumesPure ?_
    subst bits
    rw [List.append_nil, List.nil_append]
    refine checkedOk (if_neg (by simpa using length)) (rewritesBind r1 ?_)
    exact rewritesBind r2 (rewritesBind r3 (rewritesBytes mapping))
  · split
    · rename_i projection
      subst projection
      refine consumesBind (consumesU8 Canonical (by omega)) fun count b2 ⟨_, _, r2⟩ => ?_
      refine consumesBind (consumesU8 Canonical (by omega)) fun substreams b3 ⟨_, _, r3⟩ => ?_
      refine consumesBind (consumesU8 Canonical (by omega)) fun coupled b4 ⟨_, _, r4⟩ => ?_
      refine consumesBind consumesRemaining fun n bs empty => consumesEnsure fun _ => ?_
      subst empty
      refine consumesBind (rewritesMany (G := fun _ => True) _ (consumesMono (consumesI16 Canonical)
        fun v bs both => ⟨both.2, trivial⟩)) fun matrix b5 ⟨length, r5, _⟩ => consumesPure ?_
      rw [List.append_nil, List.nil_append]
      refine checkedOk (if_neg (not_not.mpr length.symm)) (rewritesBind r1 ?_)
      exact rewritesBind r2 (rewritesBind r3 (rewritesBind r4 r5))
    · rename_i notMono notProjection
      refine consumesPure (checkedOk (if_neg (not_or.mpr ⟨notMono, notProjection⟩)) ?_)
      exact rewritesBind r1 rewritesPure

theorem consumesAudioElementType (typeValue : UInt8) : Consumes (readAudioElementType typeValue) fun v bs =>
    v.value = typeValue ∧ aliasesElementType v = false ∧ Rewrites Canonical (writeAudioElementType v) bs ∧
      ((∃ raw, v = .reserved typeValue raw) ∨ ∀ trailing, v.Settled trailing) := by
  unfold readAudioElementType
  split
  · rename_i channelBased
    refine consumesBind (consumesScalableChannelLayoutConfig Canonical) fun config b1 ⟨r1, plain⟩ => consumesPure ?_
    rw [List.append_nil]
    exact ⟨channelBased.symm, rfl, r1, .inr fun _ => plain⟩
  split
  · rename_i sceneBased
    refine consumesBind consumesAmbisonicsConfig fun config b1 r1 => consumesPure ?_
    rw [List.append_nil]
    exact ⟨sceneBased.symm, rfl, r1, .inr fun _ => trivial⟩
  · rename_i notChannel notScene
    refine consumesBind consumesTrailing fun raw b1 bits => consumesPure ?_
    subst bits
    rw [List.append_nil]
    refine ⟨rfl, ?_, rewritesBytes raw, .inl ⟨raw, rfl⟩⟩
    rw [aliasesElementType, Bool.or_eq_false_iff, beq_eq_false_iff_ne, beq_eq_false_iff_ne]
    exact ⟨notChannel, notScene⟩

theorem reservedTypeTakesAll {typeValue value : UInt8} {raw : Bytes} {r r' : BitCursor}
    (ok : readAudioElementType typeValue r = .ok (.reserved value raw) r') : rest r' = [] := by
  unfold readAudioElementType at ok
  split at ok
  · obtain ⟨config, s, _, last⟩ := bindOk ok; cases last
  split at ok
  · obtain ⟨config, s, _, last⟩ := bindOk ok; cases last
  · obtain ⟨bytes, s, read, last⟩ := bindOk ok
    cases last
    exact (readTrailingSource read).2.2

theorem consumesAudioElementBody : Consumes readAudioElementBody fun v bs =>
    Rewrites Canonical (writeAudioElement v) bs ∧ v.trailing = [] ∧
      ((∃ value raw, v.audioElementType = .reserved value raw) ∨ ∀ trailing, v.audioElementType.Settled trailing) := by
  refine consumesBind consumesUleb128 fun id b1 r1 => ?_
  refine consumesBind (consumesU8 Canonical (by omega)) fun typeValue b2 ⟨_, _, r2⟩ => ?_
  refine consumesBind (consumesU8 Canonical (by omega)) fun reserved b3 ⟨_, _, r3⟩ => ?_
  refine consumesBind consumesUleb128 fun codecConfigId b4 r4 => ?_
  refine consumesBind (consumesCounted (G := fun _ => True) "num_substreams" (consumesMono consumesUleb128
    fun _ _ rewrites => ⟨rewrites, trivial⟩)) fun substreams b5 ⟨r5, _⟩ => ?_
  refine consumesBind (consumesCounted (G := fun _ => True) "num_parameters" (consumesMono consumesAudioElementParam
    fun _ _ rewrites => ⟨rewrites, trivial⟩)) fun params b6 ⟨r6, _⟩ => ?_
  refine consumesBind (consumesAudioElementType typeValue) fun type b7 ⟨value, plain, r7, kind⟩ => consumesPure ?_
  subst value
  refine ⟨rewritesGuard (by rw [plain]; rfl) ?_, rfl, ?_⟩
  · exact rewritesBind r1 (rewritesBind r2 (rewritesBind r3 (rewritesBind r4 (rewritesBind r5 (rewritesBind r6
      (rewritesBind r7 (rewritesBytes [])))))))
  · rcases kind with ⟨raw, whole⟩ | settled
    · exact .inl ⟨_, raw, whole⟩
    · exact .inr settled

theorem audioElementReadsBack :
    ReadsBack Canonical readAudioElementBody writeAudioElement AudioElement.Settled := by
  intro payload v trailing ok
  obtain ⟨⟨own, kind⟩, bytes⟩ := parsePayloadRewrites consumesAudioElementBody ok
  refine ⟨⟨own, ?_⟩, bytes⟩
  rcases kind with ⟨value, raw, whole⟩ | settled
  · obtain ⟨behind, parsed, _, split⟩ := parsePayloadSource ok
    obtain ⟨id, c1, _, next1⟩ := bindOk parsed
    obtain ⟨typeValue, c2, _, next2⟩ := bindOk next1
    obtain ⟨reserved, c3, _, next3⟩ := bindOk next2
    obtain ⟨codecConfigId, c4, _, next4⟩ := bindOk next3
    obtain ⟨substreams, c5, _, next5⟩ := bindOk next4
    obtain ⟨params, c6, _, next6⟩ := bindOk next5
    obtain ⟨type, c7, read, last⟩ := bindOk next6
    cases last
    simp only at whole
    subst whole
    have length := congrArg List.length ((reservedTypeTakesAll read).symm.trans split)
    rw [bytesBitsLength] at length
    exact List.length_eq_zero_iff.mp (by simpa using length)
  · exact settled trailing

end

end Iamf.Wire
