import Iamf.MixPresentation

/-! The two directions of the Mix Presentation syntax agree. -/
namespace Iamf.Wire
open Bits BitString TapeCodec ReadTape WriteTape

theorem hungryLocalized : Hungry readLocalized :=
  hungryBind _ (hungryPosition fun _ => hungryBind _ (hungryUnsigned (by omega)))

theorem pairedLocalized (φ : Nat) (payload : Bytes) : Paired φ φ (writeString payload) readLocalized payload :=
  pairedReturn (pairedString φ payload) (by rw [List.dropLast_concat])

theorem pairedStrings {vs : List Bytes} {count : Nat} (length : vs.length = count) :
    Paired 0 0 (writeEach writeString vs) (readStrings count) vs := by
  subst length
  exact pairedPosition fun start => pairedBounded start hungryLocalized fun v _ => pairedLocalized 0 v

theorem pairedBoundedCount {U : Type} {ψ : Nat} {field : String} {vs : List Bytes} {k : Unit → Writer Unit}
    {j : Nat → List Bytes → Reader U} {u : U} (next : Paired 0 ψ (k ()) (j vs.length vs) u) :
    Paired 0 ψ (writeCount vs.length field >>= fun _ => writeEach writeString vs >>= k)
      (readBoundedCount >>= fun n => readStrings n >>= j n) u := by
  simp only [readBoundedCount, bind_assoc, pure_bind]
  refine pairedPosition fun start => pairedCount fun fits => ?_
  rw [fits]
  exact pairedEnoughBind (pairedStrings rfl) (longEnough hungryLocalized fun v _ => pairedLocalized 0 v) next

theorem pairedRenderingConfig {v : RenderingConfig} (plain : v.headphonesRenderingMode.Plain) :
    Paired 0 0 (writeRenderingConfig v) readRenderingConfig v := by
  refine pairedBind (pairedU8 0 v.headphonesRenderingMode.value (by omega)) ?_
  refine pairedBind (pairedPhase (pairedU8 _ v.reserved (by omega)) (show _ = 0 % 8 from rfl)) ?_
  refine pairedCount fun fits => pairedReturn (pairedBytes fits.symm) ?_
  rw [show HeadphonesRenderingMode.fromValue v.headphonesRenderingMode.value = _ from plain]

theorem pairedMixGainParamDefinition (v : MixGainParamDefinition) :
    Paired 0 0 (writeMixGainParamDefinition v) readMixGainParamDefinition v := by
  refine pairedBind (pairedParamDefinition v.definition) ?_
  exact pairedReturn (pairedPhase (pairedI16 0 v.defaultMixGain) rfl) rfl

theorem pairedSubMixAudioElement {v : SubMixAudioElement} {countLabel : Nat}
    (plain : v.renderingConfig.headphonesRenderingMode.Plain)
    (length : v.localizedElementAnnotations.length = countLabel) :
    Paired 0 0 (writeSubMixAudioElement v) (readSubMixAudioElement countLabel) v := by
  refine pairedBind (pairedUleb128 0 v.audioElementId) ?_
  refine pairedBind (pairedStrings length) ?_
  refine pairedBind (pairedRenderingConfig plain) ?_
  exact pairedReturn (pairedMixGainParamDefinition v.elementMixGain) rfl

def Layout.Plain : Layout → Prop
  | .soundSystem system => system.Plain
  | _ => True

theorem pairedLayout {layout : Layout} (plain : layout.Plain) (open' : aliasesLayout layout = false) (reserved : UInt8) :
    Paired 2 0 (writeLayout layout reserved) (readLayout layout.layoutType) (layout, reserved) := by
  cases layout with
  | soundSystem system =>
    refine pairedBind (pairedU8 2 system.value (by omega)) ?_
    refine pairedReturn (pairedPhase (pairedU8 _ reserved (by omega)) rfl) ?_
    rw [show SoundSystem.fromValue system.value = system from plain]
  | binaural => exact pairedReturn (pairedPhase (pairedU8 2 reserved (by omega)) rfl) rfl
  | reserved raw =>
    simp only [aliasesLayout, Bool.or_eq_false_iff, beq_eq_false_iff_ne] at open'
    rw [Layout.layoutType, readLayout, if_neg open'.1]
    refine pairedReturn (pairedPhase (pairedU8 2 reserved (by omega)) rfl) ?_
    rw [if_neg open'.2]

theorem octetCases {P : UInt8 → Prop} (each : ∀ i : Fin 256, P (UInt8.ofNat i)) (v : UInt8) : P v := by
  have case := each ⟨v.toNat, v.toNat_lt⟩
  rwa [UInt8.ofNat_toNat] at case

theorem infoTypeParts (bits : UInt8) : bits &&& 0x03 = 0 → bits &&& 0xfc = bits ∧ ∀ truePeak anchored : Bool,
    (Loudness.infoTypeOf truePeak anchored bits &&& 0x01 = 0 ↔ truePeak = false) ∧
    (Loudness.infoTypeOf truePeak anchored bits &&& 0x02 = 0 ↔ anchored = false) ∧
    Loudness.infoTypeOf truePeak anchored bits &&& 0xfc = bits := by
  revert bits
  exact octetCases (by decide +kernel)

theorem infoTypeWhole (v : UInt8) : Loudness.infoTypeOf (v &&& 0x01 != 0) (v &&& 0x02 != 0) (v &&& 0xfc) = v ∧
    (v &&& 0xfc) &&& 0x03 = 0 ∧ (v &&& 0xfc) &&& 0xfc = v &&& 0xfc := by
  revert v
  exact octetCases (by decide +kernel)

theorem extensionBitsOwn (v : Loudness) : v.extensionBits &&& 0x03 = 0 := by
  unfold Loudness.extensionBits
  cases v.extension with
  | none => rfl
  | some extension => exact (infoTypeWhole extension.infoTypeBits).2.1

theorem pairedTruePeak {v : Option Int16} {infoType : UInt8} (presence : infoType &&& 0x01 = 0 ↔ v.isSome = false) :
    Paired 0 0 (writeTruePeak v) (readTruePeak infoType) v := by
  unfold readTruePeak
  cases v with
  | none => rw [if_pos (presence.mpr rfl)]; exact pairedPure 0 none
  | some truePeak =>
    rw [if_neg (by simp [presence])]
    exact pairedReturn (pairedPhase (pairedI16 0 truePeak) rfl) rfl

theorem pairedAnchorElement (v : AnchorElement) : Paired 0 0 (writeAnchorElement v) readAnchorElement v := by
  refine pairedBind (pairedU8 0 v.anchorElement (by omega)) ?_
  exact pairedReturn (pairedPhase (pairedI16 _ v.anchoredLoudness) rfl) rfl

theorem emitsAnchorElement (v : AnchorElement) : ∃ bs, bs.length = 24 ∧ Emits (writeAnchorElement v) bs := by
  obtain ⟨bs, length, emits⟩ := emitsI16 v.anchoredLoudness
  refine ⟨_, ?_, emitsBind (emitsUnsigned (by omega) v.anchorElement.toNat_lt) emits⟩
  rw [List.length_append, bitsOfLength, length]

theorem pairedAnchored {v : Option AnchoredLoudness} {infoType : UInt8}
    (presence : infoType &&& 0x02 = 0 ↔ v.isSome = false) :
    Paired 0 0 (writeAnchored v) (readAnchored infoType) v := by
  unfold readAnchored
  cases v with
  | none => rw [if_pos (presence.mpr rfl)]; exact pairedPure 0 none
  | some anchored =>
    rw [if_neg (by simp [presence])]
    obtain ⟨anchors⟩ := anchored
    refine pairedGuard fun small => pairedPosition fun start => ?_
    have fits : (UInt8.ofNat anchors.length).toNat = anchors.length := by
      rw [UInt8.toNat_ofNat', Nat.mod_eq_of_lt (by simpa [Nat.lt_succ_iff] using small)]
    have count := pairedU8 (n := 8) 0 (UInt8.ofNat anchors.length) (by omega)
    rw [fits] at count
    refine pairedBind (pairedPhase count (show _ = 0 % 8 from rfl)) ?_
    refine pairedEnough ?_ fun bs emits => ?_
    · rw [fits]
      exact pairedReturn (pairedMany fun v _ => pairedAnchorElement v) rfl
    · obtain ⟨cs, size, emits'⟩ := emitsEach emitsAnchorElement anchors
      rw [emitsUnique emits emits', size, fits]
      omega

theorem pairedLoudnessExtension {v : Option LoudnessExtension} {infoType : UInt8}
    (presence : infoType &&& 0xfc = 0 ↔ v.isSome = false)
    (bits : ∀ extension, v = some extension → infoType &&& 0xfc = extension.infoTypeBits) :
    Paired 0 0 (writeLoudnessExtension v) (readLoudnessExtension infoType) v := by
  unfold readLoudnessExtension
  cases v with
  | none => rw [if_pos (presence.mpr rfl)]; exact pairedPure 0 none
  | some extension =>
    rw [if_neg (by simp [presence])]
    refine pairedCount fun fits => pairedReturn (pairedBytes fits.symm) ?_
    rw [bits extension rfl]

theorem pairedLoudness (v : Loudness) : Paired 0 0 (writeLoudness v) readLoudness v := by
  refine pairedGuard fun open' => ?_
  rw [Bool.not_eq_true'] at open'
  obtain ⟨kept, parts⟩ := infoTypeParts v.extensionBits (extensionBitsOwn v)
  obtain ⟨truePeak, anchored, extension⟩ := parts v.truePeak.isSome v.anchored.isSome
  refine pairedBind (pairedPhase (pairedU8 0 v.infoType (by omega)) (show _ = 0 % 8 from rfl)) ?_
  refine pairedBind (pairedPhase (pairedI16 0 v.integrated) (show _ = 0 % 8 from rfl)) ?_
  refine pairedBind (pairedPhase (pairedI16 0 v.digitalPeak) (show _ = 0 % 8 from rfl)) ?_
  refine pairedBind (pairedTruePeak truePeak) ?_
  refine pairedBind (pairedAnchored anchored) ?_
  refine pairedReturn (pairedLoudnessExtension ?_ ?_) rfl
  · rw [Loudness.infoType, extension]
    unfold Loudness.extensionBits
    cases present : v.extension with
    | none => simp
    | some e =>
      simp only [gatedExtension, present, Bool.or_eq_false_iff, beq_eq_false_iff_ne] at open'
      simp [open'.1]
  · intro e present
    rw [Loudness.infoType, extension]
    simp only [gatedExtension, present, Bool.or_eq_false_iff, bne_eq_false_iff_eq] at open'
    simp only [Loudness.extensionBits, present]
    exact (infoTypeParts _ open'.2).1

theorem pairedLayoutWithLoudness {v : LayoutWithLoudness} (plain : v.layout.Plain) :
    Paired 0 0 (writeLayoutWithLoudness v) readLayoutWithLoudness v := by
  refine pairedGuard fun open' => ?_
  rw [Bool.not_eq_true'] at open'
  refine pairedBind (pairedU8 0 v.layout.layoutType (by omega)) ?_
  refine pairedBind (pairedLayout plain open' v.reserved) ?_
  exact pairedReturn (pairedLoudness v.loudness) rfl

theorem hungryLayoutWithLoudness : Hungry readLayoutWithLoudness :=
  hungryBind _ (hungryBind _ (hungryUnsigned (by omega)))

structure SubMix.Plain (v : SubMix) : Prop where
  elements : ∀ element ∈ v.elements, element.renderingConfig.headphonesRenderingMode.Plain
  layouts : ∀ layout ∈ v.layouts, layout.layout.Plain

theorem pairedSubMix {v : SubMix} {countLabel : Nat} (plain : v.Plain)
    (annotated : ∀ element ∈ v.elements, element.localizedElementAnnotations.length = countLabel) :
    Paired 0 0 (writeSubMix v) (readSubMix countLabel) v := by
  refine pairedBind (pairedCounted (hungryBind _ hungryUleb128) fun element among =>
    pairedSubMixAudioElement (plain.elements element among) (annotated element among)) ?_
  refine pairedBind (pairedMixGainParamDefinition v.outputMixGain) ?_
  exact pairedReturn (pairedCounted hungryLayoutWithLoudness fun layout among =>
    pairedLayoutWithLoudness (plain.layouts layout among)) rfl

def MixPresentation.Settled (v : MixPresentation) : Prop :=
  v.trailing = [] ∧ ∀ subMix ∈ v.subMixes, subMix.Plain

theorem pairedMixPresentationBody {v : MixPresentation} (settled : v.Settled) :
    Paired 0 0 (writeMixPresentation v) readMixPresentationBody v := by
  obtain ⟨id, languages, annotations, subMixes, _⟩ := v
  obtain ⟨rfl, plain⟩ := settled
  refine pairedGuard fun presented => pairedGuard fun ofElements => ?_
  refine pairedBind (pairedUleb128 0 id) ?_
  refine pairedBoundedCount ?_
  refine pairedBind (pairedStrings (beq_iff_eq.mp presented)) ?_
  refine pairedBind (pairedCounted (hungryBind _ hungryCounted) fun subMix among => ?_) (pairedEmpty 0 _)
  refine pairedSubMix (plain subMix among) fun element within => ?_
  simp only [MixPresentation.annotationsOfElements, List.all_eq_true, beq_iff_eq] at ofElements
  exact ofElements subMix among element within

theorem mixPresentationWritesBack :
    WritesBack readMixPresentationBody writeMixPresentation fun v _ => v.Settled :=
  writesBackOf fun _ => pairedMixPresentationBody

theorem consumesLocalized (canonical : Prop) :
    Consumes readLocalized fun v bs => Rewrites canonical (writeString v) bs := by
  refine consumesBind (consumesString canonical) fun bytes b1 ⟨payload, whole, r1⟩ => consumesPure ?_
  rwa [List.append_nil, whole, List.dropLast_concat]

theorem consumesStrings (canonical : Prop) (count : Nat) : Consumes (readStrings count) fun vs bs =>
    vs.length = count ∧ Rewrites canonical (writeEach writeString vs) bs := by
  refine consumesBind consumesPosition fun start bs empty => ?_
  subst empty
  refine consumesMono (consumesBounded (G := fun _ => True) count start (consumesMono (consumesLocalized canonical)
    fun _ _ rewrites => ⟨rewrites, trivial⟩)) fun vs bs ⟨length, rewrites, _⟩ => ?_
  exact ⟨length, rewrites⟩

theorem consumesLayout (canonical : Prop) (layoutType : UInt8) : Consumes (readLayout layoutType) fun v bs =>
    v.1.layoutType = layoutType ∧ aliasesLayout v.1 = false ∧ v.1.Plain ∧
      Rewrites canonical (writeLayout v.1 v.2) bs := by
  unfold readLayout
  split
  · rename_i soundSystem
    refine consumesBind (consumesU8 canonical (by omega)) fun system b1 ⟨_, _, r1⟩ => ?_
    refine consumesBind (consumesU8 canonical (by omega)) fun reserved b2 ⟨_, _, r2⟩ => consumesPure ?_
    rw [List.append_nil]
    refine ⟨soundSystem.symm, rfl, SoundSystem.fromValuePlain system, rewritesBind ?_ r2⟩
    rwa [SoundSystem.valueOfFromValue]
  · rename_i notSoundSystem
    refine consumesBind (consumesU8 canonical (by omega)) fun reserved b1 ⟨_, _, r1⟩ => consumesPure ?_
    rw [List.append_nil]
    split
    · rename_i binaural
      exact ⟨binaural.symm, rfl, trivial, r1⟩
    · rename_i notBinaural
      refine ⟨rfl, ?_, trivial, r1⟩
      rw [aliasesLayout, Bool.or_eq_false_iff, beq_eq_false_iff_ne, beq_eq_false_iff_ne]
      exact ⟨notSoundSystem, notBinaural⟩

theorem consumesTruePeak (canonical : Prop) (infoType : UInt8) : Consumes (readTruePeak infoType) fun v bs =>
    v.isSome = (infoType &&& 0x01 != 0) ∧ Rewrites canonical (writeTruePeak v) bs := by
  unfold readTruePeak
  split
  · rename_i absent
    exact consumesPure ⟨by rw [absent]; rfl, rewritesPure⟩
  · rename_i present
    refine consumesBind (consumesI16 canonical) fun truePeak b1 ⟨_, r1⟩ => consumesPure ?_
    rw [List.append_nil]
    exact ⟨by simpa using present, r1⟩

theorem consumesAnchorElement (canonical : Prop) : Consumes readAnchorElement fun v bs =>
    Rewrites canonical (writeAnchorElement v) bs := by
  refine consumesBind (consumesU8 canonical (by omega)) fun anchor b1 ⟨_, _, r1⟩ => ?_
  refine consumesBind (consumesI16 canonical) fun loudness b2 ⟨_, r2⟩ => consumesPure ?_
  rw [List.append_nil]
  exact rewritesBind r1 r2

theorem consumesAnchored (canonical : Prop) (infoType : UInt8) : Consumes (readAnchored infoType) fun v bs =>
    v.isSome = (infoType &&& 0x02 != 0) ∧ Rewrites canonical (writeAnchored v) bs := by
  unfold readAnchored
  split
  · rename_i absent
    exact consumesPure ⟨by rw [absent]; rfl, rewritesPure⟩
  · rename_i present
    refine consumesBind consumesPosition fun start bs empty => ?_
    subst empty
    refine consumesBind (consumesU8 canonical (by omega)) fun count b1 ⟨_, small, r1⟩ => ?_
    refine consumesBind consumesRemaining fun n bs empty => consumesEnsure fun _ => ?_
    subst empty
    refine consumesBind (rewritesMany (G := fun _ => True) _ (consumesMono (consumesAnchorElement canonical)
      fun v bs rewrites => ⟨rewrites, trivial⟩)) fun anchors b2 ⟨length, r2, _⟩ => consumesPure ?_
    simp only [List.append_nil, List.nil_append]
    refine ⟨by simpa using present, rewritesGuard (decide_eq_true (by rw [length]; omega)) ?_⟩
    rw [← length] at r1
    exact rewritesBind r1 r2

section

variable [UlebForm]

theorem consumesBoundedCount : Consumes readBoundedCount fun n bs =>
    ∃ v : UInt32, v.toNat = n ∧ Rewrites Canonical (writeUleb128Minimal v) bs := by
  refine consumesBind consumesPosition fun start bs empty => ?_
  subst empty
  refine consumesBind consumesUleb128 fun v b1 r1 => ?_
  refine consumesBind consumesRemaining fun n bs empty => consumesEnsure fun _ => consumesPure ?_
  subst empty
  exact ⟨v, rfl, by simpa using r1⟩

theorem consumesRenderingConfig : Consumes readRenderingConfig fun v bs =>
    Rewrites Canonical (writeRenderingConfig v) bs ∧ v.headphonesRenderingMode.Plain := by
  refine consumesBind (consumesU8 Canonical (by omega)) fun mode b1 ⟨_, _, r1⟩ => ?_
  refine consumesBind (consumesU8 Canonical (by omega)) fun reserved b2 ⟨_, _, r2⟩ => ?_
  refine consumesBind consumesUleb128 fun size b3 r3 => ?_
  refine consumesBind (consumesSpan size.toNat) fun extension b4 ⟨length, bits⟩ => consumesPure ?_
  subst bits
  rw [List.append_nil]
  refine ⟨rewritesBind ?_ (rewritesBind r2 (rewritesBind (rewritesCount length r3) (rewritesBytes extension))),
    HeadphonesRenderingMode.fromValuePlain mode⟩
  rwa [HeadphonesRenderingMode.valueOfFromValue]

theorem consumesMixGainParamDefinition : Consumes readMixGainParamDefinition fun v bs =>
    Rewrites Canonical (writeMixGainParamDefinition v) bs := by
  refine consumesBind consumesParamDefinition fun definition b1 r1 => ?_
  refine consumesBind (consumesI16 Canonical) fun gain b2 ⟨_, r2⟩ => consumesPure ?_
  rw [List.append_nil]
  exact rewritesBind r1 r2

theorem consumesSubMixAudioElement (countLabel : Nat) : Consumes (readSubMixAudioElement countLabel) fun v bs =>
    Rewrites Canonical (writeSubMixAudioElement v) bs ∧ v.renderingConfig.headphonesRenderingMode.Plain ∧
      v.localizedElementAnnotations.length = countLabel := by
  refine consumesBind consumesUleb128 fun id b1 r1 => ?_
  refine consumesBind (consumesStrings Canonical countLabel) fun annotations b2 ⟨length, r2⟩ => ?_
  refine consumesBind consumesRenderingConfig fun rendering b3 ⟨r3, plain⟩ => ?_
  refine consumesBind consumesMixGainParamDefinition fun gain b4 r4 => consumesPure ?_
  rw [List.append_nil]
  exact ⟨rewritesBind r1 (rewritesBind r2 (rewritesBind r3 r4)), plain, length⟩

theorem consumesLoudnessExtension (infoType : UInt8) : Consumes (readLoudnessExtension infoType) fun v bs =>
    (∀ extension, v = some extension → extension.infoTypeBits = infoType &&& 0xfc) ∧
      v.isSome = (infoType &&& 0xfc != 0) ∧ Rewrites Canonical (writeLoudnessExtension v) bs := by
  unfold readLoudnessExtension
  split
  · rename_i absent
    exact consumesPure ⟨by simp, by rw [absent]; rfl, rewritesPure⟩
  · rename_i present
    refine consumesBind consumesUleb128 fun size b1 r1 => ?_
    refine consumesBind (consumesSpan size.toNat) fun bytes b2 ⟨length, bits⟩ => consumesPure ?_
    subst bits
    rw [List.append_nil]
    refine ⟨?_, by simpa using present, rewritesBind (rewritesCount length r1) (rewritesBytes bytes)⟩
    rintro extension ⟨⟩
    rfl

theorem consumesLoudness : Consumes readLoudness fun v bs => Rewrites Canonical (writeLoudness v) bs := by
  refine consumesBind (consumesU8 Canonical (by omega)) fun infoType b1 ⟨_, _, r1⟩ => ?_
  refine consumesBind (consumesI16 Canonical) fun integrated b2 ⟨_, r2⟩ => ?_
  refine consumesBind (consumesI16 Canonical) fun digitalPeak b3 ⟨_, r3⟩ => ?_
  refine consumesBind (consumesTruePeak Canonical infoType) fun truePeak b4 ⟨peaked, r4⟩ => ?_
  refine consumesBind (consumesAnchored Canonical infoType) fun anchored b5 ⟨anchors, r5⟩ => ?_
  refine consumesBind (consumesLoudnessExtension infoType) fun extension b6 ⟨bits, extended, r6⟩ => consumesPure ?_
  obtain ⟨whole, own, same⟩ := infoTypeWhole infoType
  rw [List.append_nil]
  have info : (⟨integrated, digitalPeak, truePeak, anchored, extension⟩ : Loudness).infoType = infoType := by
    rw [Loudness.infoType, peaked, anchors]
    refine Eq.trans ?_ whole
    congr 1
    cases extension with
    | none =>
      have bare : infoType &&& 0xfc = 0 := by simpa using extended
      exact bare.symm
    | some e => simp only [Loudness.extensionBits, bits e rfl, same]
  have open' : gatedExtension ⟨integrated, digitalPeak, truePeak, anchored, extension⟩ = false := by
    cases extension with
    | none => rfl
    | some e => simpa [gatedExtension, bits e rfl, same, own] using extended
  refine rewritesGuard (by rw [open']; rfl) ?_
  rw [info]
  exact rewritesBind r1 (rewritesBind r2 (rewritesBind r3 (rewritesBind r4 (rewritesBind r5 r6))))

theorem consumesLayoutWithLoudness : Consumes readLayoutWithLoudness fun v bs =>
    Rewrites Canonical (writeLayoutWithLoudness v) bs ∧ v.layout.Plain := by
  refine consumesBind (consumesU8 Canonical (by omega)) fun layoutType b1 ⟨_, _, r1⟩ => ?_
  refine consumesBind (consumesLayout Canonical layoutType) fun ⟨layout, reserved⟩ b2 ⟨type, open', plain, r2⟩ => ?_
  refine consumesBind consumesLoudness fun loudness b3 r3 => consumesPure ?_
  subst type
  rw [List.append_nil]
  exact ⟨rewritesGuard (by rw [open']; rfl) (rewritesBind r1 (rewritesBind r2 r3)), plain⟩

theorem consumesSubMix (countLabel : Nat) : Consumes (readSubMix countLabel) fun v bs =>
    Rewrites Canonical (writeSubMix v) bs ∧ v.Plain ∧
      ∀ element ∈ v.elements, element.localizedElementAnnotations.length = countLabel := by
  refine consumesBind (consumesCounted "num_audio_elements" (consumesSubMixAudioElement countLabel))
    fun elements b1 ⟨r1, each⟩ => ?_
  refine consumesBind consumesMixGainParamDefinition fun gain b2 r2 => ?_
  refine consumesBind (consumesCounted "num_layouts" consumesLayoutWithLoudness)
    fun layouts b3 ⟨r3, plain⟩ => consumesPure ?_
  rw [List.append_nil]
  exact ⟨rewritesBind r1 (rewritesBind r2 r3), ⟨fun e among => (each e among).1, plain⟩,
    fun e among => (each e among).2⟩

theorem consumesMixPresentationBody : Consumes readMixPresentationBody fun v bs =>
    Rewrites Canonical (writeMixPresentation v) bs ∧ v.Settled := by
  refine consumesBind consumesUleb128 fun id b1 r1 => ?_
  refine consumesBind consumesBoundedCount fun countLabel b2 ⟨count, value, r2⟩ => ?_
  refine consumesBind (consumesStrings Canonical countLabel) fun languages b3 ⟨labels, r3⟩ => ?_
  refine consumesBind (consumesStrings Canonical countLabel) fun annotations b4 ⟨annotated, r4⟩ => ?_
  refine consumesBind (consumesCounted "num_sub_mixes" (consumesSubMix countLabel))
    fun subMixes b5 ⟨r5, each⟩ => consumesPure ?_
  refine ⟨rewritesGuard ?_ (rewritesGuard ?_ ?_), rfl, fun subMix among => (each subMix among).1⟩
  · rw [MixPresentation.annotationsPresented, MixPresentation.countLabel, annotated, labels, beq_self_eq_true]
  · simp only [MixPresentation.annotationsOfElements, MixPresentation.countLabel, List.all_eq_true, beq_iff_eq]
    intro subMix among element within
    rw [labels]
    exact (each subMix among).2 element within
  · exact rewritesBind r1 (rewritesBind (rewritesCount (labels.trans value.symm) r2) (rewritesBind r3
      (rewritesBind r4 (rewritesBind r5 (rewritesBytes [])))))

theorem mixPresentationReadsBack :
    ReadsBack Canonical readMixPresentationBody writeMixPresentation fun v _ => v.Settled :=
  readsBackOf consumesMixPresentationBody

end

end Iamf.Wire
