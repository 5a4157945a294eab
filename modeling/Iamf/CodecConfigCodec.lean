import Iamf.CodecConfig

/-! The two directions of the Codec Config syntax agree: what is written reads back, and
what was read is written again, octet for octet when every width in it was minimal. -/
namespace Iamf.Wire
open Bits BitString TapeCodec ReadTape WriteTape

def SampleFormatFlags.Plain (flags : SampleFormatFlags) : Prop := fromValue flags.value = flags

theorem SampleFormatFlags.valueOfFromValue (v : UInt8) : (fromValue v).value = v := by
  unfold fromValue
  split_ifs <;> simp_all [value]

theorem SampleFormatFlags.fromValuePlain (v : UInt8) : (fromValue v).Plain := by
  rw [Plain, valueOfFromValue]

theorem pairedLpcm {v : LpcmDecoderConfig} (plain : v.sampleFormatFlags.Plain) :
    Paired 0 0 (writeLpcmDecoderConfig v) readLpcmDecoderConfig v := by
  refine pairedBind (pairedU8 0 v.sampleFormatFlags.value (by omega)) ?_
  refine pairedBind (pairedU8 _ v.sampleSize (by omega)) ?_
  refine pairedReturn (pairedPhase (pairedU32 _ v.sampleRate (by omega)) rfl) ?_
  rw [plain]

theorem pairedOpus (v : OpusDecoderConfig) :
    Paired 0 0 (writeOpusDecoderConfig v) readOpusDecoderConfig v := by
  refine pairedBind (pairedU8 0 v.version (by omega)) ?_
  refine pairedBind (pairedU8 _ v.outputChannelCount (by omega)) ?_
  refine pairedBind (pairedU16 _ v.preSkip (by omega)) ?_
  refine pairedBind (pairedU32 _ v.inputSampleRate (by omega)) ?_
  refine pairedBind (pairedI16 _ v.outputGain) ?_
  exact pairedReturn (pairedPhase (pairedU8 _ v.mappingFamily (by omega)) rfl) rfl

theorem pairedArray {n : Nat} (φ : Nat) (v : {bytes : Bytes // bytes.length = n}) :
    Paired φ φ (writeBytes v.val) (readArray n) v :=
  .inr ⟨bytesBits v.val, by simp, emitsBytes v.val, readsArray φ v⟩

theorem pairedFlac (v : FlacDecoderConfig) :
    Paired 0 0 (writeFlacDecoderConfig v) readFlacDecoderConfig v := by
  refine pairedBind (pairedBool 0 v.lastMetadataBlock) ?_
  refine pairedBind (pairedU8 _ v.metadataBlockType (by omega)) ?_
  refine pairedBind (pairedU32 _ v.metadataDataBlockLength (by omega)) ?_
  refine pairedBind (pairedU16 _ v.minimumBlockSize (by omega)) ?_
  refine pairedBind (pairedU16 _ v.maximumBlockSize (by omega)) ?_
  refine pairedBind (pairedU32 _ v.minimumFrameSize (by omega)) ?_
  refine pairedBind (pairedU32 _ v.maximumFrameSize (by omega)) ?_
  refine pairedBind (pairedU32 _ v.sampleRate (by omega)) ?_
  refine pairedBind (pairedU8 _ v.numberOfChannels (by omega)) ?_
  refine pairedBind (pairedU8 _ v.bitsPerSample (by omega)) ?_
  refine pairedBind (pairedU64 _ v.totalSamplesInStream (by omega)) ?_
  exact pairedReturn (pairedPhase (pairedArray _ v.md5Signature) rfl) rfl

theorem pairedAacLcFields (v : AacLcDecoderConfig) :
    Paired 0 0 (writeAacLcDecoderConfig v) readAacLcFields v := by
  refine pairedBind (pairedUnsigned 0 (by omega) (by omega)) ?_
  refine pairedBind (pairedUnsigned _ (by omega) (by omega)) ?_
  refine pairedBind (pairedU8 _ v.objectTypeIndication (by omega)) ?_
  refine pairedBind (pairedU8 _ v.streamType (by omega)) ?_
  refine pairedBind (pairedBool _ v.upstream) ?_
  refine pairedBind (pairedBool _ true) ?_
  refine pairedBind (pairedU32 _ v.bufferSizeDb (by omega)) ?_
  refine pairedBind (pairedU32 _ v.maxBitrate (by omega)) ?_
  refine pairedBind (pairedU32 _ v.avgBitrate (by omega)) ?_
  refine pairedBind (pairedUnsigned _ (by omega) (by omega)) ?_
  refine pairedBind (pairedUnsigned _ (by omega) (by omega)) ?_
  refine pairedBind (pairedU8 _ v.audioObjectType (by omega)) ?_
  refine pairedBind (pairedU8 _ v.samplingFrequencyIndex (by omega)) ?_
  refine pairedBind (pairedU8 _ v.channelConfiguration (by omega)) ?_
  refine pairedBind (pairedBool _ v.frameLengthFlag) ?_
  refine pairedBind (pairedBool _ v.dependsOnCoreCoder) ?_
  exact pairedReturn (pairedPhase (pairedBool _ v.extensionFlag) rfl) rfl

section

variable (canonical : Prop)

theorem consumesLpcm : Consumes readLpcmDecoderConfig fun v bs => bs.length = 8 * lpcmDecoderConfigBytes ∧
    v.sampleFormatFlags.Plain ∧ Rewrites canonical (writeLpcmDecoderConfig v) bs := by
  refine consumesBind (consumesU8 canonical (by omega)) fun flags bs ⟨l1, _, r1⟩ => ?_
  refine consumesBind (consumesU8 canonical (by omega)) fun size cs ⟨l2, _, r2⟩ => ?_
  refine consumesBind (consumesU32 canonical (by omega)) fun rate ds ⟨l3, _, r3⟩ => consumesPure ?_
  rw [List.append_nil]
  refine ⟨by simp only [List.length_append, l1, l2, l3]; rfl, SampleFormatFlags.fromValuePlain flags, ?_⟩
  refine rewritesBind ?_ (rewritesBind r2 r3)
  rwa [SampleFormatFlags.valueOfFromValue]

theorem consumesOpus : Consumes readOpusDecoderConfig fun v bs => bs.length = 8 * opusDecoderConfigBytes ∧
    Rewrites canonical (writeOpusDecoderConfig v) bs := by
  refine consumesBind (consumesU8 canonical (by omega)) fun version b1 ⟨l1, _, r1⟩ => ?_
  refine consumesBind (consumesU8 canonical (by omega)) fun count b2 ⟨l2, _, r2⟩ => ?_
  refine consumesBind (consumesU16 canonical (by omega)) fun preSkip b3 ⟨l3, _, r3⟩ => ?_
  refine consumesBind (consumesU32 canonical (by omega)) fun rate b4 ⟨l4, _, r4⟩ => ?_
  refine consumesBind (consumesI16 canonical) fun gain b5 ⟨l5, r5⟩ => ?_
  refine consumesBind (consumesU8 canonical (by omega)) fun family b6 ⟨l6, _, r6⟩ => consumesPure ?_
  rw [List.append_nil]
  refine ⟨by simp only [List.length_append, l1, l2, l3, l4, l5, l6]; rfl, ?_⟩
  exact rewritesBind r1 (rewritesBind r2 (rewritesBind r3 (rewritesBind r4 (rewritesBind r5 r6))))

theorem consumesFlac : Consumes readFlacDecoderConfig fun v bs => bs.length = 8 * flacDecoderConfigBytes ∧
    Rewrites canonical (writeFlacDecoderConfig v) bs := by
  refine consumesBind (consumesBool canonical) fun last b1 ⟨l1, r1⟩ => ?_
  refine consumesBind (consumesU8 canonical (by omega)) fun type b2 ⟨l2, _, r2⟩ => ?_
  refine consumesBind (consumesU32 canonical (by omega)) fun length b3 ⟨l3, _, r3⟩ => ?_
  refine consumesBind (consumesU16 canonical (by omega)) fun minBlock b4 ⟨l4, _, r4⟩ => ?_
  refine consumesBind (consumesU16 canonical (by omega)) fun maxBlock b5 ⟨l5, _, r5⟩ => ?_
  refine consumesBind (consumesU32 canonical (by omega)) fun minFrame b6 ⟨l6, _, r6⟩ => ?_
  refine consumesBind (consumesU32 canonical (by omega)) fun maxFrame b7 ⟨l7, _, r7⟩ => ?_
  refine consumesBind (consumesU32 canonical (by omega)) fun rate b8 ⟨l8, _, r8⟩ => ?_
  refine consumesBind (consumesU8 canonical (by omega)) fun channels b9 ⟨l9, _, r9⟩ => ?_
  refine consumesBind (consumesU8 canonical (by omega)) fun bits b10 ⟨l10, _, r10⟩ => ?_
  refine consumesBind (consumesU64 canonical) fun total b11 ⟨l11, _, r11⟩ => ?_
  refine consumesBind (consumesArray 16) fun md5 b12 r12 => consumesPure ?_
  subst r12
  rw [List.append_nil]
  refine ⟨?_, ?_⟩
  · simp only [List.length_append, l1, l2, l3, l4, l5, l6, l7, l8, l9, l10, l11, bytesBitsLength, md5.property]
    rfl
  · exact rewritesBind r1 (rewritesBind r2 (rewritesBind r3 (rewritesBind r4 (rewritesBind r5 (rewritesBind r6
      (rewritesBind r7 (rewritesBind r8 (rewritesBind r9 (rewritesBind r10 (rewritesBind r11
        (rewritesBytes md5.val)))))))))))

end

def descriptorTail (v : AacLcDecoderConfig) : List Bool :=
  bitsOf 5 v.audioObjectType.toNat ++ (bitsOf 4 v.samplingFrequencyIndex.toNat ++
    (bitsOf 4 v.channelConfiguration.toNat ++ (bitsOf 1 v.frameLengthFlag.toNat ++
    (bitsOf 1 v.dependsOnCoreCoder.toNat ++ bitsOf 1 v.extensionFlag.toNat))))

def descriptorRates (v : AacLcDecoderConfig) : List Bool :=
  bitsOf 24 v.bufferSizeDb.toNat ++ (bitsOf 32 v.maxBitrate.toNat ++ bitsOf 32 v.avgBitrate.toNat)

def descriptorBits (tag length specificTag specificLength : Nat) (reserved : Bool) (v : AacLcDecoderConfig) :
    List Bool :=
  bitsOf 8 tag ++ (bitsOf 8 length ++ (bitsOf 8 v.objectTypeIndication.toNat ++ (bitsOf 6 v.streamType.toNat ++
    (bitsOf 1 v.upstream.toNat ++ (bitsOf 1 reserved.toNat ++ (descriptorRates v ++ (bitsOf 8 specificTag ++
    (bitsOf 8 specificLength ++ descriptorTail v))))))))

structure AacLcDecoderConfig.Fits (v : AacLcDecoderConfig) : Prop where
  streamType : v.streamType.toNat < 2 ^ 6
  bufferSizeDb : v.bufferSizeDb.toNat < 2 ^ 24
  audioObjectType : v.audioObjectType.toNat < 2 ^ 5
  samplingFrequencyIndex : v.samplingFrequencyIndex.toNat < 2 ^ 4
  channelConfiguration : v.channelConfiguration.toNat < 2 ^ 4

theorem consumesAacLcFields : Consumes readAacLcFields fun v bs => v.Fits ∧ ∃ tag length specificTag specificLength
    reserved, tag < 2 ^ 8 ∧ length < 2 ^ 8 ∧ specificTag < 2 ^ 8 ∧ specificLength < 2 ^ 8 ∧
      bs = descriptorBits tag length specificTag specificLength reserved v := by
  refine consumesBind (consumesUnsigned 8) fun tag b1 ⟨_, s1, r1⟩ => ?_
  refine consumesBind (consumesUnsigned 8) fun length b2 ⟨_, s2, r2⟩ => ?_
  refine consumesBind (consumesU8Bits (by omega)) fun object b3 ⟨_, r3⟩ => ?_
  refine consumesBind (consumesU8Bits (by omega)) fun stream b4 ⟨s4, r4⟩ => ?_
  refine consumesBind consumesBoolBits fun upstream b5 r5 => ?_
  refine consumesBind consumesBoolBits fun reserved b6 r6 => ?_
  refine consumesBind (consumesU32Bits (by omega)) fun buffer b7 ⟨s7, r7⟩ => ?_
  refine consumesBind (consumesU32Bits (by omega)) fun max b8 ⟨_, r8⟩ => ?_
  refine consumesBind (consumesU32Bits (by omega)) fun avg b9 ⟨_, r9⟩ => ?_
  refine consumesBind (consumesUnsigned 8) fun specificTag b10 ⟨_, s10, r10⟩ => ?_
  refine consumesBind (consumesUnsigned 8) fun specificLength b11 ⟨_, s11, r11⟩ => ?_
  refine consumesBind (consumesU8Bits (by omega)) fun type b12 ⟨s12, r12⟩ => ?_
  refine consumesBind (consumesU8Bits (by omega)) fun index b13 ⟨s13, r13⟩ => ?_
  refine consumesBind (consumesU8Bits (by omega)) fun channels b14 ⟨s14, r14⟩ => ?_
  refine consumesBind consumesBoolBits fun flag b15 r15 => ?_
  refine consumesBind consumesBoolBits fun core b16 r16 => ?_
  refine consumesBind consumesBoolBits fun extension b17 r17 => consumesPure ?_
  refine ⟨⟨s4, s7, s12, s13, s14⟩, tag, length, specificTag, specificLength, reserved, s1, s2, s10, s11, ?_⟩
  simp only [descriptorBits, descriptorRates, descriptorTail, r1, r2, r3, r4, r5, r6, r7, r8, r9, r10, r11, r12, r13, r14, r15, r16, r17,
    List.append_nil, List.append_assoc]

theorem emitsAacLc {v : AacLcDecoderConfig} (fits : v.Fits) :
    Emits (writeAacLcDecoderConfig v) (descriptorBits 0x04 17 0x05 2 true v) := by
  simp only [descriptorBits, descriptorRates, descriptorTail, List.append_assoc]
  have bool (b : Bool) : Emits (writeBool b) (bitsOf 1 b.toNat) :=
    emitsUnsigned (by omega) (by cases b <;> simp)
  have octet {n : Nat} (small : n < 2 ^ 8) : Emits (writeUnsigned n 8) (bitsOf 8 n) :=
    emitsUnsigned (by omega) small
  refine emitsBind (octet (by omega)) (emitsBind (octet (by omega)) ?_)
  refine emitsBind (octet v.objectTypeIndication.toNat_lt) ?_
  refine emitsBind (emitsUnsigned (by omega) fits.streamType) ?_
  refine emitsBind (bool _) (emitsBind (bool _) ?_)
  refine emitsBind (emitsUnsigned (by omega) fits.bufferSizeDb) ?_
  refine emitsBind (emitsUnsigned (by omega) v.maxBitrate.toNat_lt) ?_
  refine emitsBind (emitsUnsigned (by omega) v.avgBitrate.toNat_lt) ?_
  refine emitsBind (octet (by omega)) (emitsBind (octet (by omega)) ?_)
  refine emitsBind (emitsUnsigned (by omega) fits.audioObjectType) ?_
  refine emitsBind (emitsUnsigned (by omega) fits.samplingFrequencyIndex) ?_
  refine emitsBind (emitsUnsigned (by omega) fits.channelConfiguration) ?_
  exact emitsBind (bool _) (emitsBind (bool _) (bool _))

theorem byteAt {bytes : Bytes} {p q : List Bool} {v : Nat} (i : Nat)
    (split : bytesBits bytes = p ++ (bitsOf 8 v ++ q)) (length : p.length = 8 * i) (octet : v < 2 ^ 8) :
    bytes[i]? = some (UInt8.ofNat v) := by
  have total := congrArg List.length split
  rw [bytesBitsLength, List.length_append, List.length_append, bitsOfLength, length] at total
  have inside : i < bytes.length := by omega
  have suffix : bytesBits (bytes.drop i) = bitsOf 8 v ++ q := by
    rw [← bytesBitsDrop, split, ← length, List.drop_left]
  rw [List.drop_eq_getElem_cons inside, bytesBitsCons] at suffix
  have head := (List.append_inj suffix (by simp)).1
  have value : (UInt8.ofNat v).toNat = v := by rw [UInt8.toNat_ofNat', Nat.mod_eq_of_lt octet]
  rw [List.getElem?_eq_getElem inside]
  congr 1
  apply byteBitsInjective
  rw [head, byteBits, value]

theorem isDescriptorIff {descriptor : Bytes} {tag length specificTag specificLength : Nat} {reserved : Bool}
    {v : AacLcDecoderConfig} (fits : v.Fits) (tagByte : tag < 2 ^ 8) (lengthByte : length < 2 ^ 8)
    (specificTagByte : specificTag < 2 ^ 8) (specificLengthByte : specificLength < 2 ^ 8)
    (bits : bytesBits descriptor = descriptorBits tag length specificTag specificLength reserved v) :
    isAacLcDescriptor descriptor = true ↔
      tag = 0x04 ∧ length = 17 ∧ specificTag = 0x05 ∧ specificLength = 2 ∧ reserved = true := by
  have size : descriptor.length = aacLcDecoderConfigBytes := by
    have total := congrArg List.length bits
    simp only [descriptorBits, descriptorRates, descriptorTail, bytesBitsLength, List.length_append,
      bitsOfLength] at total
    simp only [aacLcDecoderConfigBytes]
    omega
  have at0 := byteAt (p := []) 0 bits rfl tagByte
  have at1 := byteAt (p := bitsOf 8 tag) 1 bits (by simp) lengthByte
  have up : v.upstream.toNat < 2 := by cases v.upstream <;> simp
  have res : reserved.toNat < 2 := by cases reserved <;> simp
  have small := fits.streamType
  have flags : bitsOf 6 v.streamType.toNat ++ (bitsOf 1 v.upstream.toNat ++ bitsOf 1 reserved.toNat) =
      bitsOf 8 (v.streamType.toNat * 4 + v.upstream.toNat * 2 + reserved.toNat) := by
    rw [bitsOfSplit 6 2, bitsOfSplit 1 1 (v.streamType.toNat * 4 + v.upstream.toNat * 2 + reserved.toNat),
      ← bitsOfMod 1 (_ / 2 ^ 1), ← bitsOfMod 1 (v.streamType.toNat * 4 + v.upstream.toNat * 2 + reserved.toNat)]
    congr 1
    · congr 1; omega
    congr 1
    · congr 1; omega
    · congr 1; omega
  have at3 : descriptor[3]? = some (UInt8.ofNat (v.streamType.toNat * 4 + v.upstream.toNat * 2 + reserved.toNat)) := by
    refine byteAt (p := bitsOf 8 tag ++ (bitsOf 8 length ++ bitsOf 8 v.objectTypeIndication.toNat))
      (q := descriptorRates v ++ (bitsOf 8 specificTag ++ (bitsOf 8 specificLength ++ descriptorTail v)))
      3 ?_ (by simp) (by omega)
    rw [← flags, bits]
    simp only [descriptorBits, List.append_assoc]
  have before : bytesBits descriptor = (bitsOf 8 tag ++ (bitsOf 8 length ++ (bitsOf 8 v.objectTypeIndication.toNat ++
      (bitsOf 6 v.streamType.toNat ++ (bitsOf 1 v.upstream.toNat ++ (bitsOf 1 reserved.toNat ++
      descriptorRates v)))))) ++ (bitsOf 8 specificTag ++ (bitsOf 8 specificLength ++ descriptorTail v)) := by
    rw [bits]
    simp only [descriptorBits, List.append_assoc]
  have at15 := byteAt 15 before (by simp [descriptorRates]) specificTagByte
  have at16 : descriptor[16]? = some (UInt8.ofNat specificLength) := by
    rw [← List.append_assoc] at before
    exact byteAt 16 before (by simp [descriptorRates]) specificLengthByte
  have octet {n k : Nat} (first : n < 2 ^ 8) (second : k < 2 ^ 8) : UInt8.ofNat n = UInt8.ofNat k ↔ n = k := by
    rw [← UInt8.toNat_inj, UInt8.toNat_ofNat', UInt8.toNat_ofNat', Nat.mod_eq_of_lt first, Nat.mod_eq_of_lt second]
  have low : (UInt8.ofNat (v.streamType.toNat * 4 + v.upstream.toNat * 2 + reserved.toNat) &&& 1 = 1) ↔
      reserved = true := by
    rw [← UInt8.toNat_inj, UInt8.toNat_and, UInt8.toNat_ofNat', Nat.mod_eq_of_lt (by omega),
      show (1 : UInt8).toNat = 1 from rfl, Nat.and_one_is_mod]
    cases reserved <;> simp <;> omega
  have four := octet tagByte (show 0x04 < 2 ^ 8 by omega)
  have seventeen := octet lengthByte (show 17 < 2 ^ 8 by omega)
  have five := octet specificTagByte (show 0x05 < 2 ^ 8 by omega)
  have two := octet specificLengthByte (show 2 < 2 ^ 8 by omega)
  unfold isAacLcDescriptor
  rw [at0, at1, at3, at15, at16, size]
  simp only [beq_self_eq_true, Bool.true_and, Bool.and_eq_true, beq_iff_eq, Option.some.injEq, Option.any_some, low]
  rw [← four, ← seventeen, ← five, ← two]
  constructor
  · rintro ⟨⟨⟨⟨a, b⟩, c⟩, d⟩, e⟩
    exact ⟨a, b, c, d, e⟩
  · rintro ⟨a, b, c, d, e⟩
    exact ⟨⟨⟨⟨a, b⟩, c⟩, d⟩, e⟩

def DecoderConfig.Typed (codecId : CodecId) : DecoderConfig → Prop
  | .lpcm cfg => codecId = codecIdLpcm ∧ cfg.sampleFormatFlags.Plain
  | .flac _ => codecId = codecIdFlac
  | .opus _ => codecId = codecIdOpus
  | .aacLc _ => codecId = codecIdAac
  | .raw _ _ => False

def DecoderConfig.Kept (codecId : CodecId) : DecoderConfig → Prop
  | .raw id bytes => id = codecId ∧ (codecId = codecIdLpcm → bytes.length < lpcmDecoderConfigBytes) ∧
      (codecId = codecIdFlac → bytes.length < flacDecoderConfigBytes) ∧
      (codecId = codecIdOpus → bytes.length < opusDecoderConfigBytes) ∧
      (codecId = codecIdAac → bytes.length < aacLcDecoderConfigBytes ∨
        isAacLcDescriptor (bytes.take aacLcDecoderConfigBytes) = false)
  | _ => False

theorem enoughRemaining {T : Type} {f : Reader T} {bs tail : List Bool} {v : T} {r : BitCursor} {n : Nat}
    (reads : Reads 0 f bs v) (consumes : Consumes f fun _ bs => bs.length = 8 * n) (offset : phase r = 0 % 8)
    (split : rest r = bs ++ tail) : n ≤ r.bytesRemaining ∧ f r = .ok v (advance bs.length r) := by
  have ok := reads r tail offset split
  have length := consumedLength ok (by rw [split]; simp) consumes
  have total := congrArg List.length split
  change r.rest.length = _ at total
  rw [BitCursor.restLength, List.length_append, length] at total
  refine ⟨?_, ok⟩
  simp only [BitCursor.bytesRemaining]
  omega

theorem codecIdsDiffer : codecIdFlac ≠ codecIdLpcm ∧ codecIdOpus ≠ codecIdLpcm ∧ codecIdOpus ≠ codecIdFlac ∧
    codecIdAac ≠ codecIdLpcm ∧ codecIdAac ≠ codecIdFlac ∧ codecIdAac ≠ codecIdOpus := by decide

theorem pairedAacLc (v : AacLcDecoderConfig) :
    Paired 0 0 (writeAacLcDecoderConfig v) (readDecoderConfig codecIdAac) (.aacLc v) := by
  obtain ⟨_, _, _, notLpcm, notFlac, notOpus⟩ := codecIdsDiffer
  rcases pairedAacLcFields v with refused | ⟨bs, octets, emits, reads⟩
  · exact .inl refused
  obtain ⟨k, size⟩ : ∃ k, bs.length = 8 * k := ⟨bs.length / 8, by omega⟩
  have packed := packBitsExact k bs size
  have start : rest (BitCursor.new (packBits k bs)) = bs := packed
  have parsed := reads (BitCursor.new (packBits k bs)) [] (phaseIsBitOff _) (by rw [start, List.append_nil])
  obtain ⟨_, _, _, _, fits, _⟩ := consumesAacLcFields _ _ _ parsed
  have bits := emitsUnique emits (emitsAacLc fits)
  have descriptor : isAacLcDescriptor (packBits k bs) = true :=
    (isDescriptorIff fits (by omega) (by omega) (by omega) (by omega) (packed.trans bits)).mpr ⟨rfl, rfl, rfl, rfl, rfl⟩
  have length : (packBits k bs).length = aacLcDecoderConfigBytes := by
    have total := congrArg List.length (packed.trans bits)
    simp only [descriptorBits, descriptorRates, descriptorTail, bytesBitsLength, List.length_append,
      bitsOfLength] at total
    simp only [aacLcDecoderConfigBytes]
    omega
  refine .inr ⟨bs, octets, emits, fun r tail offset split => ?_⟩
  have aligned : r.bitOff = 0 := by rw [← phaseIsBitOff, offset]
  rw [← packed] at split
  have span := readSpanOk aligned split
  have total := congrArg List.length split
  change r.rest.length = _ at total
  rw [BitCursor.restLength, List.length_append, bytesBitsLength, length] at total
  have enough : r.bytesRemaining ≥ aacLcDecoderConfigBytes := by simp only [BitCursor.bytesRemaining]; omega
  rw [length, packed] at span
  unfold readDecoderConfig
  rw [bindOf _ (bytesRemainingOk r), if_neg (fun both => notLpcm both.1), if_neg (fun both => notFlac both.1),
    if_neg (fun both => notOpus both.1), if_pos ⟨rfl, enough⟩, bindOf _ span, if_pos descriptor]
  unfold readAacLcDecoderConfig
  rw [parsed]
  rfl

theorem pairedDecoderConfig {codecId : CodecId} {v : DecoderConfig} (typed : v.Typed codecId) :
    Paired 0 0 (writeDecoderConfig v) (readDecoderConfig codecId) v := by
  obtain ⟨flacLpcm, opusLpcm, opusFlac, _, _, _⟩ := codecIdsDiffer
  cases v with
  | lpcm cfg =>
    obtain ⟨rfl, plain⟩ := typed
    rcases pairedLpcm plain with refused | ⟨bs, octets, emits, reads⟩
    · exact .inl refused
    refine .inr ⟨bs, octets, emits, fun r tail offset split => ?_⟩
    obtain ⟨enough, ok⟩ := enoughRemaining reads (consumesMono (consumesLpcm True) fun _ _ h => h.1) offset split
    unfold readDecoderConfig
    rw [bindOf _ (bytesRemainingOk r), if_pos ⟨rfl, enough⟩, bindOf _ ok]
    rfl
  | flac cfg =>
    cases (typed : codecId = codecIdFlac)
    rcases pairedFlac cfg with refused | ⟨bs, octets, emits, reads⟩
    · exact .inl refused
    refine .inr ⟨bs, octets, emits, fun r tail offset split => ?_⟩
    obtain ⟨enough, ok⟩ := enoughRemaining reads (consumesMono (consumesFlac True) fun _ _ h => h.1) offset split
    unfold readDecoderConfig
    rw [bindOf _ (bytesRemainingOk r), if_neg (fun both => flacLpcm both.1), if_pos ⟨rfl, enough⟩, bindOf _ ok]
    rfl
  | opus cfg =>
    cases (typed : codecId = codecIdOpus)
    rcases pairedOpus cfg with refused | ⟨bs, octets, emits, reads⟩
    · exact .inl refused
    refine .inr ⟨bs, octets, emits, fun r tail offset split => ?_⟩
    obtain ⟨enough, ok⟩ := enoughRemaining reads (consumesMono (consumesOpus True) fun _ _ h => h.1) offset split
    unfold readDecoderConfig
    rw [bindOf _ (bytesRemainingOk r), if_neg (fun both => opusLpcm both.1),
      if_neg (fun both => opusFlac both.1), if_pos ⟨rfl, enough⟩, bindOf _ ok]
    rfl
  | aacLc cfg =>
    cases (typed : codecId = codecIdAac)
    exact pairedAacLc cfg
  | raw id bytes => exact typed.elim

theorem keptTakesAll {codecId id : CodecId} {bytes : Bytes} {r r' : BitCursor}
    (ok : readDecoderConfig codecId r = .ok (.raw id bytes) r') :
    r.bitOff = 0 ∧ rest r = bytesBits bytes ∧ rest r' = [] ∧ DecoderConfig.Kept codecId (.raw id bytes) := by
  unfold readDecoderConfig at ok
  rw [bindOf _ (bytesRemainingOk r)] at ok
  have counted (whole : rest r = bytesBits bytes) : bytes.length = r.bytesRemaining := by
    have total := congrArg List.length whole
    change r.rest.length = _ at total
    rw [BitCursor.restLength, bytesBitsLength] at total
    simp only [BitCursor.bytesRemaining]
    omega
  split at ok
  · obtain ⟨cfg, s, _, last⟩ := bindOk ok; cases last
  split at ok
  · obtain ⟨cfg, s, _, last⟩ := bindOk ok; cases last
  split at ok
  · obtain ⟨cfg, s, _, last⟩ := bindOk ok; cases last
  split at ok
  · rename_i notLpcm notFlac notOpus aac
    obtain ⟨descriptor, s, span, tail⟩ := bindOk ok
    obtain ⟨aligned, length, more, split, moved⟩ := readSpanSource span
    split at tail
    · obtain ⟨parsed, _⟩ := orThrowOk tail
      unfold readAacLcDecoderConfig at parsed
      split at parsed <;> cases parsed
    · rename_i other
      obtain ⟨extra, s', rest', last⟩ := bindOk tail
      cases last
      obtain ⟨_, behind, done⟩ := readTrailingSource rest'
      have behind' : more = bytesBits extra := by
        rw [← behind, moved, restAdvance _ _ (by change _ ≤ r.rest.length; rw [split]; simp)]
        change _ = r.rest.drop _
        rw [split, List.drop_left]
      have whole : rest r = bytesBits (descriptor ++ extra) := by
        rw [bytesBitsAppend, ← behind']; exact split
      have notOthers := codecIdsDiffer
      refine ⟨aligned, whole, done, rfl, ?_, ?_, ?_, fun _ => .inr ?_⟩
      · rintro rfl; exact absurd aac.1.symm notOthers.2.2.2.1
      · rintro rfl; exact absurd aac.1.symm notOthers.2.2.2.2.1
      · rintro rfl; exact absurd aac.1.symm notOthers.2.2.2.2.2
      · rw [← length, List.take_left]; simpa using other
  · rename_i notLpcm notFlac notOpus notAac
    obtain ⟨all, s', rest', last⟩ := bindOk ok
    cases last
    obtain ⟨aligned, whole, done⟩ := readTrailingSource rest'
    have size := counted whole
    refine ⟨aligned, whole, done, rfl, ?_, ?_, ?_, fun same => .inl ?_⟩
    · intro same; have := not_and.mp notLpcm same; omega
    · intro same; have := not_and.mp notFlac same; omega
    · intro same; have := not_and.mp notOpus same; omega
    · have := not_and.mp notAac same; omega

theorem consumesDecoderBits (canonical : Prop) (codecId : CodecId) :
    Consumes (readDecoderConfig codecId) fun v bs => Rewrites canonical (writeDecoderConfig v) bs ∧
      (v.Typed codecId ∨ ∃ id bytes, v = .raw id bytes) := by
  refine consumesBind consumesRemaining fun n bs empty => ?_
  subst empty
  simp only [List.nil_append]
  split
  · rename_i lpcm
    refine consumesBind (consumesLpcm canonical) fun cfg cs ⟨_, plain, rewrites⟩ => consumesPure ?_
    rw [List.append_nil]
    exact ⟨rewrites, .inl ⟨lpcm.1, plain⟩⟩
  split
  · rename_i flac
    refine consumesBind (consumesFlac canonical) fun cfg cs ⟨_, rewrites⟩ => consumesPure ?_
    rw [List.append_nil]
    exact ⟨rewrites, .inl flac.1⟩
  split
  · rename_i opus
    refine consumesBind (consumesOpus canonical) fun cfg cs ⟨_, rewrites⟩ => consumesPure ?_
    rw [List.append_nil]
    exact ⟨rewrites, .inl opus.1⟩
  split
  · rename_i aac
    refine consumesBind (consumesSpan aacLcDecoderConfigBytes) fun descriptor cs ⟨_, bits⟩ => ?_
    subst bits
    split
    · rename_i recognised
      refine consumesOrThrow fun v parsed => ?_
      rw [List.append_nil]
      unfold readAacLcDecoderConfig at parsed
      split at parsed
      · rename_i cfg behind fields
        cases parsed
        obtain ⟨ds, tail, split, moved, fits, tag, length, specificTag, specificLength, reserved, s1, s2, s3, s4,
          bits⟩ := consumesAacLcFields _ _ _ fields
        subst bits
        have total := congrArg List.length split
        change (bytesBits descriptor).length = _ at total
        have none : tail = [] := by
          apply List.length_eq_zero_iff.mp
          have size : descriptor.length = aacLcDecoderConfigBytes := by
            unfold isAacLcDescriptor at recognised
            simp only [Bool.and_eq_true, beq_iff_eq] at recognised
            exact recognised.1.1.1.1.1
          simp only [descriptorBits, descriptorRates, descriptorTail, bytesBitsLength, List.length_append,
            bitsOfLength, size, aacLcDecoderConfigBytes] at total
          omega
        rw [none, List.append_nil] at split
        have whole : bytesBits descriptor = _ := split
        obtain ⟨rfl, rfl, rfl, rfl, rfl⟩ := (isDescriptorIff fits s1 s2 s3 s4 whole).mp recognised
        refine ⟨⟨_, emitsAacLc fits, ?_, ?_, fun _ => whole.symm⟩, .inl aac.1⟩ <;> rw [whole]
      · cases parsed
    · refine consumesBind consumesTrailing fun more ds bits => consumesPure ?_
      subst bits
      rw [List.append_nil, ← bytesBitsAppend]
      exact ⟨rewritesBytes _, .inr ⟨_, _, rfl⟩⟩
  · refine consumesBind consumesTrailing fun bytes ds bits => consumesPure ?_
    subst bits
    rw [List.append_nil]
    exact ⟨rewritesBytes _, .inr ⟨_, _, rfl⟩⟩

theorem consumesDecoderConfig (canonical : Prop) (codecId : CodecId) :
    Consumes (readDecoderConfig codecId) fun v bs => Rewrites canonical (writeDecoderConfig v) bs ∧
      (v.Typed codecId ∨ v.Kept codecId) := by
  intro r v r' ok
  obtain ⟨bs, tail, split, moved, rewrites, shape⟩ := consumesDecoderBits canonical codecId r v r' ok
  refine ⟨bs, tail, split, moved, rewrites, ?_⟩
  rcases shape with typed | ⟨id, bytes, rfl⟩
  · exact .inl typed
  · exact .inr (keptTakesAll ok).2.2.2

structure CodecConfig.Settled (v : CodecConfig) (trailing : Bytes) : Prop where
  own : v.trailing = []
  kind : v.decoderConfig.Typed v.codecId ∨ v.decoderConfig.Kept v.codecId ∧ trailing = []

theorem pairedKept {codecId : CodecId} {v : DecoderConfig} (kept : v.Kept codecId) :
    PairedLast 0 (writeDecoderConfig v) (readDecoderConfig codecId) v := by
  cases v with
  | raw id bytes =>
    obtain ⟨rfl, notLpcm, notFlac, notOpus, notAac⟩ := kept
    refine .inr ⟨bytesBits bytes, by simp, emitsBytes bytes, fun r offset split => ?_⟩
    have aligned : r.bitOff = 0 := by rw [← phaseIsBitOff, offset]
    have total := congrArg List.length split
    change r.rest.length = _ at total
    rw [BitCursor.restLength, bytesBitsLength] at total
    have size : r.bytesRemaining = bytes.length := by simp only [BitCursor.bytesRemaining]; omega
    unfold readDecoderConfig
    rw [bindOf _ (bytesRemainingOk r), size]
    rw [if_neg (fun both => absurd (notLpcm both.1) (Nat.not_lt.mpr both.2)),
      if_neg (fun both => absurd (notFlac both.1) (Nat.not_lt.mpr both.2)),
      if_neg (fun both => absurd (notOpus both.1) (Nat.not_lt.mpr both.2))]
    split
    · rename_i aac
      have other := (notAac aac.1).resolve_left (Nat.not_lt.mpr aac.2)
      have front : (bytes.take aacLcDecoderConfigBytes).length = aacLcDecoderConfigBytes := by
        rw [List.length_take, Nat.min_eq_left aac.2]
      have parts : rest r = bytesBits (bytes.take aacLcDecoderConfigBytes) ++
          bytesBits (bytes.drop aacLcDecoderConfigBytes) := by
        rw [split, ← bytesBitsAppend, List.take_append_drop]
      have span := readSpanOk aligned parts
      have inside : (bytesBits (bytes.take aacLcDecoderConfigBytes)).length ≤ (rest r).length := by
        rw [parts]; simp
      have behind : rest (advance (bytesBits (bytes.take aacLcDecoderConfigBytes)).length r) =
          bytesBits (bytes.drop aacLcDecoderConfigBytes) := by
        rw [restAdvance _ _ inside, parts, List.drop_left]
      rw [bytesBitsLength] at inside
      have aligned' := (advanceAligned aligned inside).2
      rw [← bytesBitsLength] at aligned'
      have last := readTrailingOk aligned' behind
      rw [front] at span
      rw [bindOf _ span, if_neg (by simpa using other), bindOf _ last,
        advanceAdd _ _ _ (by rw [parts, List.length_append]), ← List.length_append, ← bytesBitsAppend,
        List.take_append_drop]
      rfl
    · rw [bindOf _ (readTrailingOk aligned split)]
      rfl
  | _ => exact kept.elim

theorem pairedCodecConfigBody {v : CodecConfig} (own : v.trailing = []) (typed : v.decoderConfig.Typed v.codecId) :
    Paired 0 0 (writeCodecConfig v) readCodecConfigBody v := by
  obtain ⟨id, codecId, samples, roll, decoder, _⟩ := v
  subst own
  refine pairedBind (pairedUleb128 0 id) ?_
  refine pairedBind (pairedArray _ codecId) ?_
  refine pairedBind (pairedUleb128 _ samples) ?_
  refine pairedBind (pairedPhase (pairedI16 _ roll) (show _ = 0 % 8 from rfl)) ?_
  refine pairedBind (pairedDecoderConfig typed) ?_
  exact pairedEmpty 0 _

theorem pairedLastCodecConfigBody {v : CodecConfig} (own : v.trailing = []) (kept : v.decoderConfig.Kept v.codecId) :
    PairedLast 0 (writeCodecConfig v) readCodecConfigBody v := by
  obtain ⟨id, codecId, samples, roll, decoder, _⟩ := v
  subst own
  refine pairedLastBind (pairedUleb128 0 id) ?_
  refine pairedLastBind (pairedArray _ codecId) ?_
  refine pairedLastBind (pairedUleb128 _ samples) ?_
  refine pairedLastBind (pairedPhase (pairedI16 _ roll) (show _ = 0 % 8 from rfl)) ?_
  exact pairedLastEmpty (pairedKept kept) rfl

theorem codecConfigWritesBack : WritesBack readCodecConfigBody writeCodecConfig CodecConfig.Settled := by
  rintro v bytes trailing ⟨own, typed | ⟨kept, rfl⟩⟩ ok
  · exact parsePayloadPaired (pairedCodecConfigBody own typed) ok trailing
  · rw [List.append_nil]
    exact parsePayloadLast (pairedLastCodecConfigBody own kept) ok

section

variable [UlebForm]

theorem consumesCodecConfigBody : Consumes readCodecConfigBody fun v bs =>
    Rewrites Canonical (writeCodecConfig v) bs ∧ v.trailing = [] ∧
      (v.decoderConfig.Typed v.codecId ∨ v.decoderConfig.Kept v.codecId) := by
  refine consumesBind consumesUleb128 fun id b1 r1 => ?_
  refine consumesBind (consumesArray 4) fun codecId b2 r2 => ?_
  subst r2
  refine consumesBind consumesUleb128 fun samples b3 r3 => ?_
  refine consumesBind (consumesI16 Canonical) fun roll b4 ⟨_, r4⟩ => ?_
  refine consumesBind (consumesDecoderConfig Canonical codecId) fun decoder b5 ⟨r5, kind⟩ => consumesPure ?_
  refine ⟨?_, rfl, kind⟩
  exact rewritesBind r1 (rewritesBind (rewritesBytes codecId.val) (rewritesBind r3 (rewritesBind r4
    (rewritesBind r5 (rewritesBytes [])))))

theorem codecConfigReadsBack : ReadsBack Canonical readCodecConfigBody writeCodecConfig CodecConfig.Settled := by
  intro payload v trailing ok
  obtain ⟨⟨own, kind⟩, bytes⟩ := parsePayloadRewrites consumesCodecConfigBody ok
  refine ⟨⟨own, ?_⟩, bytes⟩
  rcases kind with typed | kept
  · exact .inl typed
  · right
    refine ⟨kept, ?_⟩
    obtain ⟨behind, parsed, _, split⟩ := parsePayloadSource ok
    obtain ⟨id, c1, _, next1⟩ := bindOk parsed
    obtain ⟨codecId, c2, _, next2⟩ := bindOk next1
    obtain ⟨samples, c3, _, next3⟩ := bindOk next2
    obtain ⟨roll, c4, _, next4⟩ := bindOk next3
    obtain ⟨decoder, c5, read, last⟩ := bindOk next4
    cases last
    cases decoder with
    | raw rawId raw =>
      have done := (keptTakesAll read).2.2.1
      have length := congrArg List.length (done.symm.trans split)
      rw [bytesBitsLength] at length
      exact List.length_eq_zero_iff.mp (by simpa using length)
    | _ => exact kept.elim

end

end Iamf.Wire
