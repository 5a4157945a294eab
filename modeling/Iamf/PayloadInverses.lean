import Iamf.AudioElementCodec
import Iamf.CodecConfigCodec
import Iamf.MixPresentationCodec
import Iamf.ParameterBlockCodec
import Iamf.DescriptorSet

/-! A payload writer against the reader of the whole payload, the bytes it keeps as trailing
included: which values come back as they were written. -/
namespace Iamf.Wire
open Bits BitString TapeCodec ReadTape WriteTape

section

variable {T : Type}

def ReadsAs (read : Reader T) (bytes : Bytes) (v : T) : Prop :=
  ∃ stop, read (BitCursor.new bytes) = .ok v stop ∧ stop.bitsRemaining = 0

instance [DecidableEq T] (read : Reader T) (bytes v) : Decidable (ReadsAs read bytes v) :=
  match h : read (BitCursor.new bytes) with
  | .ok u stop => decidable_of_iff (u = v ∧ stop.bitsRemaining = 0) (by
      simp only [ReadsAs, h, EStateM.Result.ok.injEq]
      constructor
      · rintro ⟨rfl, done⟩
        exact ⟨stop, ⟨rfl, rfl⟩, done⟩
      · rintro ⟨_, ⟨rfl, rfl⟩, done⟩
        exact ⟨rfl, done⟩)
  | .error _ _ => .isFalse (by rintro ⟨stop, read, _⟩; rw [h] at read; cases read)

/-- What was written is whole octets, and the reader takes them for `v`. -/
def Recovered (read : Reader T) (w : BitWriter) (v : T) : Prop := ∃ bytes, w.finish = .ok bytes ∧ ReadsAs read bytes v

theorem recoveredOf {g : Writer Unit} {f : Reader T} {v : T} {w : BitWriter} (paired : PairedLast 0 g f v)
    (written : g .new = .ok () w) : Recovered f w v := by
  rcases paired with refused | ⟨bs, octets, emits, reads⟩
  · obtain ⟨e, w', failed⟩ := refused .new
    rw [failed] at written
    cases written
  rw [emits] at written
  cases written
  obtain ⟨k, size⟩ : ∃ k, bs.length = 8 * k := ⟨bs.length / 8, by omega⟩
  have packed := packBitsExact k bs size
  have parsed := reads (BitCursor.new (packBits k bs)) (phaseIsBitOff _) packed
  refine ⟨packBits k bs, BitWriter.finishAppend packed.symm, _, parsed, ?_⟩
  have behind := restAdvance bs.length (BitCursor.new (packBits k bs)) (by rw [show rest _ = bs from packed])
  have length := congrArg List.length behind
  rw [show rest (BitCursor.new (packBits k bs)) = bs from packed, List.drop_length] at length
  change (BitCursor.rest _).length = 0 at length
  rwa [BitCursor.restLength] at length

theorem writtenOf {g : Writer Unit} {bytes : Bytes} (finished : finishWriter g = .ok bytes) :
    g .new = .ok () (.ofBytes bytes) := by
  unfold finishWriter runWriter at finished
  cases ran : g .new with
  | error e w => rw [ran] at finished; cases finished
  | ok _ w =>
    rw [ran] at finished
    change w.finish = .ok bytes at finished
    unfold BitWriter.finish at finished
    split at finished
    · cases finished
    · rename_i aligned
      cases finished
      rw [← BitWriter.alignedIsOfBytes (not_not.mp aligned)]

theorem recoveredOnce {read : Reader T} {w : BitWriter} {u v : T} (first : Recovered read w u)
    (second : Recovered read w v) : u = v := by
  obtain ⟨bytes, finished, _, reads, _⟩ := first
  obtain ⟨bytes', finished', _, reads', _⟩ := second
  cases finished.symm.trans finished'
  cases reads.symm.trans reads'
  rfl

theorem readBehindBody {body : Reader T} (pack : T → Bytes → T) {bytes : Bytes} {v : T} {stop : BitCursor}
    (read : (body >>= fun u => readTrailing >>= fun trailing => pure (pack u trailing)) (BitCursor.new bytes) = .ok v stop) :
    ∃ u trailing, parsePayload body bytes = .ok (u, trailing) ∧ v = pack u trailing := by
  obtain ⟨u, c1, first, tail⟩ := bindOk read
  obtain ⟨trailing, c2, second, last⟩ := bindOk tail
  cases last
  obtain ⟨aligned, split, _⟩ := readTrailingSource second
  exact ⟨u, trailing, parsePayloadOf first aligned split, rfl⟩

theorem pairedLastPacked {g : Writer Unit} {body : Reader T} (pack : T → Bytes → T) {u : T} (trailing : Bytes)
    (paired : Paired 0 0 g body u) : PairedLast 0 (g >>= fun _ => writeBytes trailing)
      (body >>= fun u => readTrailing >>= fun trailing => pure (pack u trailing)) (pack u trailing) :=
  pairedLastBind paired (pairedLastReturn (pairedLastTrailing trailing) rfl)

theorem pairedLastSpent {g : Writer Unit} {body : Reader T} (pack : T → Bytes → T) {u : T}
    (paired : PairedLast 0 g body u) : PairedLast 0 g
      (body >>= fun u => readTrailing >>= fun trailing => pure (pack u trailing)) (pack u []) := by
  rcases paired with refused | ⟨bs, octets, emits, reads⟩
  · exact .inl refused
  refine .inr ⟨bs, octets, emits, fun r offset split => ?_⟩
  have inside : bs.length ≤ (rest r).length := by rw [split]
  have spent : rest (advance bs.length r) = bytesBits [] := by
    rw [restAdvance _ _ inside, split, List.drop_length]; rfl
  have aligned : (advance bs.length r).bitOff = 0 := by
    rw [← phaseIsBitOff, phaseAdvance inside, offset]; omega
  rw [bindOf _ (reads r offset split), bindOf _ (readTrailingOk aligned spent), bytesBitsNil, List.length_nil,
    advanceZero]
  rfl

end

/-- The raw number is none that the crate names, nor the one that announces an expanded layout. -/
def LoudspeakerLayout.numberFree : LoudspeakerLayout → Bool
  | .reserved raw => 10 ≤ raw.toNat && raw.toNat ≤ 14
  | .expanded (.reserved raw) => 13 ≤ raw.toNat
  | _ => true

theorem LoudspeakerLayout.reservedPlain (raw : UInt8) :
    (LoudspeakerLayout.reserved raw).Plain ↔ 10 ≤ raw.toNat ∧ raw.toNat ≤ 14 := by
  unfold Plain fromValue value
  dsimp only
  split
  case h_11 => split_ifs with inside <;> simp [inside]
  all_goals simp

theorem ExpandedLoudspeakerLayout.reservedPlain (raw : UInt8) :
    (ExpandedLoudspeakerLayout.reserved raw).Plain ↔ 13 ≤ raw.toNat := by
  unfold Plain fromValue value
  dsimp only
  split
  case h_14 =>
    -- the number is none of the named ones
    simp only [← UInt8.toNat_inj, UInt8.reduceToNat, imp_false, true_iff] at *
    omega
  all_goals simp

theorem plainNumberFree (layout : LoudspeakerLayout) : layout.Plain ↔ layout.numberFree = true := by
  cases layout with
  | reserved raw => simp [LoudspeakerLayout.reservedPlain, LoudspeakerLayout.numberFree]
  | expanded inner =>
    cases inner with
    | reserved raw =>
      exact (ExpandedLoudspeakerLayout.reservedPlain raw).trans decide_eq_true_iff.symm
    | _ => exact ⟨fun _ => rfl, fun _ => rfl⟩
  | _ => exact ⟨fun _ => rfl, fun _ => rfl⟩

def AudioElement.layoutsFree (v : AudioElement) : Bool :=
  match v.audioElementType with
  | .channelBased config => config.layers.all fun layer => layer.loudspeakerLayout.numberFree
  | _ => true

def AudioElement.Whole (v : AudioElement) : Prop :=
  ∀ value raw, v.audioElementType = .reserved value raw → v.trailing = []

theorem settledLayouts {v : AudioElement} (whole : v.Whole) :
    v.audioElementType.Settled v.trailing ↔ v.layoutsFree = true := by
  unfold AudioElement.layoutsFree AudioElementType.Settled
  cases kind : v.audioElementType with
  | channelBased config => simp only [List.all_eq_true, plainNumberFree]
  | sceneBased config => exact ⟨fun _ => rfl, fun _ => trivial⟩
  | reserved value raw => exact ⟨fun _ => rfl, fun _ => whole value raw kind⟩

theorem writeAudioElementTrailing (v : AudioElement) :
    writeAudioElement v = (writeAudioElement { v with trailing := [] } >>= fun _ => writeBytes v.trailing) := by
  simp only [writeAudioElement, writeBytesNil, bind_assoc, pure_bind]

theorem pairedLastAudioElement {v : AudioElement} (settled : v.audioElementType.Settled v.trailing) :
    PairedLast 0 (writeAudioElement v) readAudioElement v := by
  cases trailing : v.trailing with
  | nil =>
    rw [trailing] at settled
    have spent := pairedLastSpent (fun (u : AudioElement) trailing => { u with trailing := trailing })
      (pairedLastAudioElementBody ⟨trailing, settled⟩)
    rwa [show ({ v with trailing := [] } : AudioElement) = v by rw [← trailing]] at spent
  | cons byte more =>
    have kind := pairedAudioElementType settled (by simp [trailing])
    have packed := pairedLastPacked (fun (u : AudioElement) trailing => { u with trailing := trailing })
      v.trailing (pairedAudioElementBody (v := { v with trailing := [] }) rfl kind)
    rwa [← writeAudioElementTrailing] at packed

theorem readAudioElementSettled {bytes : Bytes} {v : AudioElement} {stop : BitCursor}
    (read : readAudioElement (BitCursor.new bytes) = .ok v stop) : v.audioElementType.Settled v.trailing := by
  obtain ⟨u, trailing, ok, rfl⟩ := readBehindBody
    (fun (u : AudioElement) trailing => { u with trailing := trailing }) read
  exact (audioElementReadsBack bytes u trailing ok).1.kind

theorem audioElementInverse {v : AudioElement} {w : BitWriter} (whole : v.Whole)
    (written : writeAudioElement v .new = .ok () w) :
    Recovered readAudioElement w v ↔ v.layoutsFree = true := by
  rw [← settledLayouts whole]
  constructor
  · rintro ⟨bytes, _, stop, read, _⟩
    exact readAudioElementSettled read
  · exact fun settled => recoveredOf (pairedLastAudioElement settled) written

def elementOf (layout : LoudspeakerLayout) : AudioElement :=
  .channelBased 300 1 [7] (.singleLayer (.new layout 1 1))

theorem elementWritten : ∀ layout ∈ [LoudspeakerLayout.stereo, .reserved 1],
    finishWriter (writeAudioElement (elementOf layout)) = .ok [0xac, 2, 0, 1, 1, 7, 0, 0x20, 0x10, 1, 1] := by
  decide +kernel

theorem audioElementInverseStereo : ∃ w, (elementOf .stereo).Whole ∧ writeAudioElement (elementOf .stereo) .new = .ok () w ∧
    (Recovered readAudioElement w (elementOf .stereo) ↔ (elementOf .stereo).layoutsFree = true) := by
  have whole : (elementOf .stereo).Whole := fun _ _ _ => rfl
  have written := writtenOf (elementWritten .stereo (by simp))
  exact ⟨_, whole, written, audioElementInverse whole written⟩

theorem audioElementAliased : ∃ w, (elementOf (.reserved 1)).Whole ∧
    writeAudioElement (elementOf (.reserved 1)) .new = .ok () w ∧ Recovered readAudioElement w (elementOf .stereo) ∧
    ¬ Recovered readAudioElement w (elementOf (.reserved 1)) := by
  have settled := (settledLayouts (v := elementOf .stereo) fun _ _ _ => rfl).mpr rfl
  have stereo := recoveredOf (pairedLastAudioElement settled) (writtenOf (elementWritten .stereo (by simp)))
  refine ⟨_, fun _ _ _ => rfl, writtenOf (elementWritten (.reserved 1) (by simp)), stereo, fun reserved => ?_⟩
  cases recoveredOnce stereo reserved

def HeadphonesRenderingMode.numberFree : HeadphonesRenderingMode → Bool
  | .reserved raw => 2 ≤ raw.toNat
  | _ => true

theorem HeadphonesRenderingMode.reservedPlain (raw : UInt8) :
    (HeadphonesRenderingMode.reserved raw).Plain ↔ 2 ≤ raw.toNat := by
  unfold Plain fromValue value
  dsimp only
  split
  case h_3 =>
    simp only [← UInt8.toNat_inj, UInt8.reduceToNat, imp_false, true_iff] at *
    omega
  all_goals simp

theorem HeadphonesRenderingMode.plainNumberFree (mode : HeadphonesRenderingMode) :
    mode.Plain ↔ mode.numberFree = true := by
  cases mode with
  | reserved raw => exact (reservedPlain raw).trans decide_eq_true_iff.symm
  | _ => exact ⟨fun _ => rfl, fun _ => rfl⟩

def SoundSystem.numberFree : SoundSystem → Bool
  | .reserved raw => 14 ≤ raw.toNat
  | _ => true

theorem SoundSystem.reservedPlain (raw : UInt8) : (SoundSystem.reserved raw).Plain ↔ 14 ≤ raw.toNat := by
  unfold Plain fromValue value
  dsimp only
  split
  case h_15 =>
    simp only [← UInt8.toNat_inj, UInt8.reduceToNat, imp_false, true_iff] at *
    omega
  all_goals simp

theorem SoundSystem.plainNumberFree (system : SoundSystem) : system.Plain ↔ system.numberFree = true := by
  cases system with
  | reserved raw => exact (reservedPlain raw).trans decide_eq_true_iff.symm
  | _ => exact ⟨fun _ => rfl, fun _ => rfl⟩

def Layout.numberFree (layout : Layout) : Bool := layout.soundSystem?.all (·.numberFree)

theorem Layout.plainNumberFree (layout : Layout) : layout.Plain ↔ layout.numberFree = true := by
  cases layout with
  | soundSystem system => simp [Layout.Plain, Layout.numberFree, soundSystem?, system.plainNumberFree]
  | _ => exact ⟨fun _ => rfl, fun _ => trivial⟩

def MixPresentation.numbersFree (v : MixPresentation) : Bool :=
  v.subMixes.all fun subMix =>
    (subMix.elements.all fun element => element.renderingConfig.headphonesRenderingMode.numberFree) &&
      subMix.layouts.all fun entry => entry.layout.numberFree

theorem plainNumbersFree (v : MixPresentation) : (∀ subMix ∈ v.subMixes, subMix.Plain) ↔ v.numbersFree = true := by
  have one (subMix : SubMix) : subMix.Plain ↔
      ((subMix.elements.all fun element => element.renderingConfig.headphonesRenderingMode.numberFree) &&
        subMix.layouts.all fun entry => entry.layout.numberFree) = true := by
    simp only [Bool.and_eq_true, List.all_eq_true, ← HeadphonesRenderingMode.plainNumberFree,
      ← Layout.plainNumberFree]
    exact ⟨fun plain => ⟨plain.elements, plain.layouts⟩, fun both => ⟨both.1, both.2⟩⟩
  simp only [MixPresentation.numbersFree, List.all_eq_true, one]

theorem writeMixPresentationTrailing (v : MixPresentation) :
    writeMixPresentation v = (writeMixPresentation { v with trailing := [] } >>= fun _ => writeBytes v.trailing) := by
  simp only [writeMixPresentation, writeBytesNil, bind_assoc, pure_bind]
  rfl

theorem pairedLastMixPresentation {v : MixPresentation} (plain : ∀ subMix ∈ v.subMixes, subMix.Plain) :
    PairedLast 0 (writeMixPresentation v) readMixPresentation v := by
  have packed := pairedLastPacked (fun (u : MixPresentation) trailing => { u with trailing := trailing })
    v.trailing (pairedMixPresentationBody (v := { v with trailing := [] }) ⟨rfl, plain⟩)
  rwa [← writeMixPresentationTrailing] at packed

theorem readMixPresentationPlain {bytes : Bytes} {v : MixPresentation} {stop : BitCursor}
    (read : readMixPresentation (BitCursor.new bytes) = .ok v stop) : ∀ subMix ∈ v.subMixes, subMix.Plain := by
  obtain ⟨u, trailing, ok, rfl⟩ := readBehindBody
    (fun (u : MixPresentation) trailing => { u with trailing := trailing }) read
  exact (mixPresentationReadsBack bytes u trailing ok).1.2

theorem mixPresentationInverse {v : MixPresentation} {w : BitWriter}
    (written : writeMixPresentation v .new = .ok () w) :
    Recovered readMixPresentation w v ↔ v.numbersFree = true := by
  rw [← plainNumbersFree]
  constructor
  · rintro ⟨bytes, _, stop, read, _⟩
    exact readMixPresentationPlain read
  · exact fun plain => recoveredOf (pairedLastMixPresentation plain) written

def presentationOf (mode : HeadphonesRenderingMode) (system : SoundSystem) : MixPresentation :=
  ⟨42, [], [], [⟨[⟨300, [], ⟨mode, 0, []⟩, .mode1 5 48000⟩], .mode1 6 48000,
    [⟨.soundSystem system, 0, .new 0 0⟩]⟩], []⟩

def presentationBytes : Bytes :=
  [0x2a, 0, 1, 1, 0xac, 2, 0, 0, 5, 0x80, 0xf7, 2, 0x80, 0, 0, 6, 0x80, 0xf7, 2, 0x80, 0, 0, 1, 0x80, 0, 0, 0, 0, 0]

theorem presentationWritten : ∀ v ∈ [presentationOf .stereo .a0_2_0, presentationOf (.reserved 0) .a0_2_0,
    presentationOf .stereo (.reserved 0)], finishWriter (writeMixPresentation v) = .ok presentationBytes := by
  decide +kernel

theorem mixPresentationInverseStereo : ∃ w, writeMixPresentation (presentationOf .stereo .a0_2_0) .new = .ok () w ∧
    (Recovered readMixPresentation w (presentationOf .stereo .a0_2_0) ↔
      (presentationOf .stereo .a0_2_0).numbersFree = true) := by
  have written := writtenOf (presentationWritten (presentationOf .stereo .a0_2_0) (by simp))
  exact ⟨_, written, mixPresentationInverse written⟩

theorem mixPresentationAliased : (∃ w, writeMixPresentation (presentationOf (.reserved 0) .a0_2_0) .new = .ok () w ∧
      Recovered readMixPresentation w (presentationOf .stereo .a0_2_0) ∧
      ¬ Recovered readMixPresentation w (presentationOf (.reserved 0) .a0_2_0)) ∧
    ∃ w, writeMixPresentation (presentationOf .stereo (.reserved 0)) .new = .ok () w ∧
      Recovered readMixPresentation w (presentationOf .stereo .a0_2_0) ∧
      ¬ Recovered readMixPresentation w (presentationOf .stereo (.reserved 0)) := by
  have plain := (plainNumbersFree (presentationOf .stereo .a0_2_0)).mpr rfl
  have stereo := recoveredOf (pairedLastMixPresentation plain)
    (writtenOf (presentationWritten (presentationOf .stereo .a0_2_0) (by simp)))
  refine ⟨⟨_, writtenOf (presentationWritten (presentationOf (.reserved 0) .a0_2_0) (by simp)), stereo, ?_⟩,
    ⟨_, writtenOf (presentationWritten (presentationOf .stereo (.reserved 0)) (by simp)), stereo, ?_⟩⟩
  · intro reserved
    cases recoveredOnce stereo reserved
  · intro reserved
    cases recoveredOnce stereo reserved

theorem writtenId {definition : ParamDefinition} {context : ParameterDataContext} {block : ParameterBlock}
    {w : BitWriter} (written : writeParameterBlock definition context block .new = .ok () w) :
    block.parameterId = definition.parameterId := by
  unfold writeParameterBlock at written
  obtain ⟨_, s, checked, _⟩ := bindOk written
  exact (governedOf (orThrowOk checked).1).id

theorem parameterBlockInverse {registry : ParamDefinitionRegistry} {id : UInt32} {entry : RegisteredParamDefinition}
    {block : ParameterBlock} {w : BitWriter} (governing : registry.get id = some entry)
    (written : writeParameterBlock entry.definition entry.context block .new = .ok () w) :
    Recovered (readParameterBlock registry) w block ↔ block.Plain := by
  have own : registry.get block.parameterId = some entry := by
    rw [writtenId written, ParamDefinitionRegistry.getId governing]
    exact governing
  constructor
  · rintro ⟨bytes, _, stop, read, _⟩
    obtain ⟨_, _, _, _, _, _, _, plain⟩ := consumesParameterBlock registry _ _ _ read
    exact plain
  · exact fun plain => recoveredOf (pairedLastOf (pairedParameterBlock own plain)) written

def reconGainEntry : RegisteredParamDefinition := ⟨.mode1 5 48000, .reconGain [true]⟩

def reconGainBlock (flag : UInt32) (gain : UInt8) : ParameterBlock :=
  ⟨5, some ⟨960, 960⟩, [⟨none, .reconGain ⟨[some ⟨flag, ⟨gain :: List.replicate 11 0, rfl⟩⟩]⟩⟩]⟩

theorem reconGainGoverning : (⟨[reconGainEntry]⟩ : ParamDefinitionRegistry).get 5 = some reconGainEntry := by decide

theorem reconGainWritten : ∀ p ∈ [(reconGainBlock 1 9, [1, 9]), (reconGainBlock 0 9, [0]), (reconGainBlock 0 0, [0])],
    finishWriter (writeParameterBlock reconGainEntry.definition reconGainEntry.context p.1) =
      .ok ([5, 0xc0, 7, 0xc0, 7] ++ p.2) := by
  decide +kernel

theorem parameterBlockInverseSelected : ∃ w,
    writeParameterBlock reconGainEntry.definition reconGainEntry.context (reconGainBlock 1 9) .new = .ok () w ∧
    (Recovered (readParameterBlock ⟨[reconGainEntry]⟩) w (reconGainBlock 1 9) ↔ (reconGainBlock 1 9).Plain) := by
  have written := writtenOf (reconGainWritten (reconGainBlock 1 9, [1, 9]) (by simp))
  exact ⟨_, written, parameterBlockInverse reconGainGoverning written⟩

theorem parameterBlockUnselected : ∃ w,
    writeParameterBlock reconGainEntry.definition reconGainEntry.context (reconGainBlock 0 9) .new = .ok () w ∧
    Recovered (readParameterBlock ⟨[reconGainEntry]⟩) w (reconGainBlock 0 0) ∧
    ¬ Recovered (readParameterBlock ⟨[reconGainEntry]⟩) w (reconGainBlock 0 9) := by
  have plain : (reconGainBlock 0 0).Plain := by
    simp [reconGainBlock, ParameterBlock.Plain, ParameterData.Plain, PlainGains, List.replicate]
  have own : (⟨[reconGainEntry]⟩ : ParamDefinitionRegistry).get (reconGainBlock 0 0).parameterId = some reconGainEntry :=
    reconGainGoverning
  have zero := recoveredOf (pairedLastOf (pairedParameterBlock own plain))
    (writtenOf (reconGainWritten (reconGainBlock 0 0, [0]) (by simp)))
  refine ⟨_, writtenOf (reconGainWritten (reconGainBlock 0 9, [0]) (by simp)), zero, fun kept => ?_⟩
  exact absurd (recoveredOnce zero kept) (by decide)

theorem writeCodecConfigTrailing (v : CodecConfig) :
    writeCodecConfig v = (writeCodecConfig { v with trailing := [] } >>= fun _ => writeBytes v.trailing) := by
  simp only [writeCodecConfig, writeBytesNil, bind_assoc, pure_bind]

theorem pairedLastCodecConfig {v : CodecConfig} (kind : v.decoderConfig.Typed v.codecId ∨
    v.decoderConfig.Kept v.codecId ∧ v.trailing = []) : PairedLast 0 (writeCodecConfig v) readCodecConfig v := by
  rcases kind with typed | ⟨kept, own⟩
  · have packed := pairedLastPacked (fun (u : CodecConfig) trailing => { u with trailing := trailing })
      v.trailing (pairedCodecConfigBody (v := { v with trailing := [] }) rfl typed)
    rwa [← writeCodecConfigTrailing] at packed
  · have spent := pairedLastSpent (fun (u : CodecConfig) trailing => { u with trailing := trailing })
      (pairedLastCodecConfigBody own kept)
    rwa [show ({ v with trailing := [] } : CodecConfig) = v by rw [← own]] at spent

theorem readCodecConfigSource {bytes : Bytes} {v : CodecConfig} {stop : BitCursor}
    (read : readCodecConfig (BitCursor.new bytes) = .ok v stop) :
    (v.decoderConfig.Typed v.codecId ∨ v.decoderConfig.Kept v.codecId ∧ v.trailing = []) ∧
      ∃ w, writeCodecConfig v .new = .ok () w := by
  obtain ⟨u, trailing, ok, rfl⟩ := readBehindBody
    (fun (u : CodecConfig) trailing => { u with trailing := trailing }) read
  obtain ⟨⟨own, kind⟩, front, finished, _⟩ := codecConfigReadsBack bytes u trailing ok
  refine ⟨kind, .ofBytes (front ++ trailing), ?_⟩
  rw [writeCodecConfigTrailing]
  refine writtenOf (finishWriterTrailing.mpr ⟨front, ?_, rfl⟩)
  rwa [show ({ u with trailing := [] } : CodecConfig) = u by rw [← own]]

theorem codecConfigInverse (v : CodecConfig) :
    (v.decoderConfig.Typed v.codecId → ∀ w, writeCodecConfig v .new = .ok () w → Recovered readCodecConfig w v) ∧
    ∀ bytes stop, readCodecConfig (BitCursor.new bytes) = .ok v stop →
      ∃ w, writeCodecConfig v .new = .ok () w ∧ Recovered readCodecConfig w v := by
  constructor
  · intro typed w written
    exact recoveredOf (pairedLastCodecConfig (.inl typed)) written
  · intro bytes stop read
    obtain ⟨kind, w, written⟩ := readCodecConfigSource read
    exact ⟨w, written, recoveredOf (pairedLastCodecConfig kind) written⟩

def lpcmSixteen : CodecConfig := .lpcm 1 8 ⟨.fromValue 1, 16, 48000⟩

def lpcmShort : CodecConfig := ⟨1, codecIdLpcm, 8, 0, .raw codecIdLpcm [1, 16, 0, 0, 0xbb], []⟩

theorem codecConfigInverseLpcm : (∃ w, writeCodecConfig lpcmSixteen .new = .ok () w ∧
      Recovered readCodecConfig w lpcmSixteen) ∧
    ∃ w, writeCodecConfig lpcmShort .new = .ok () w ∧ Recovered readCodecConfig w lpcmShort := by
  have written : writeCodecConfig lpcmSixteen .new =
      .ok () (.ofBytes [1, 0x69, 0x70, 0x63, 0x6d, 8, 0, 0, 1, 16, 0, 0, 0xbb, 0x80]) := writtenOf (by decide +kernel)
  have short : ReadsAs readCodecConfig [1, 0x69, 0x70, 0x63, 0x6d, 8, 0, 0, 1, 16, 0, 0, 0xbb] lpcmShort := by
    decide +kernel
  obtain ⟨stop, read, _⟩ := short
  exact ⟨⟨_, written, (codecConfigInverse lpcmSixteen).1 ⟨rfl, rfl⟩ _ written⟩,
    (codecConfigInverse lpcmShort).2 _ stop read⟩

end Iamf.Wire
