import Iamf.Payload

/-! The Codec Config OBU: four decoder configurations read bit by bit, and every other
one kept as the bytes it came in. -/
namespace Iamf.Wire
open Bits BitString TapeCodec

abbrev CodecId := {bytes : Bytes // bytes.length = 4}

def codecIdLpcm : CodecId := ⟨[0x69, 0x70, 0x63, 0x6d], rfl⟩
def codecIdOpus : CodecId := ⟨[0x4f, 0x70, 0x75, 0x73], rfl⟩
def codecIdFlac : CodecId := ⟨[0x66, 0x4c, 0x61, 0x43], rfl⟩
def codecIdAac : CodecId := ⟨[0x6d, 0x70, 0x34, 0x61], rfl⟩

def maxSamplesPerFrame : Nat := 96000
def validSampleRates : List Nat := [16000, 32000, 44100, 48000, 96000]
def opusDecoderConfigBytes : Nat := 11
def opusSampleRate : UInt32 := 48000
def aacLcDecoderConfigBytes : Nat := 19
def aacLcObjectTypeIndication : UInt8 := 0x40
def aacLcStreamType : UInt8 := 0x05
def aacLcAudioObjectType : UInt8 := 2
def aacLcChannelConfiguration : UInt8 := 2
def aacLcMaxBufferSizeDb : Nat := 0xffffff
def aacLcNumSamplesPerFrame : UInt32 := 1024
def aacLcAudioRollDistance : Int16 := -1
def aacLcSampleRates : List UInt32 :=
  [96000, 88200, 64000, 48000, 44100, 32000, 24000, 22050, 16000, 12000, 11025, 8000, 7350]
def lpcmDecoderConfigBytes : Nat := 6
def flacDecoderConfigBytes : Nat := 38
def flacStreaminfoBytes : UInt32 := 34
def flacMaxSampleRate : Nat := 655350
def flacMaxTotalSamples : Nat := 0xfffffffff

inductive SampleFormatFlags where
  | bigEndian
  | littleEndian
  | reserved (raw : UInt8)
  deriving DecidableEq, Repr

namespace SampleFormatFlags

def value : SampleFormatFlags → UInt8
  | .bigEndian => 0
  | .littleEndian => 1
  | .reserved raw => raw

def fromValue (value : UInt8) : SampleFormatFlags :=
  if value = 0 then .bigEndian else if value = 1 then .littleEndian else .reserved value

end SampleFormatFlags

structure LpcmDecoderConfig where
  sampleFormatFlags : SampleFormatFlags
  sampleSize : UInt8
  sampleRate : UInt32
  deriving DecidableEq, Repr

structure FlacDecoderConfig where
  lastMetadataBlock : Bool
  metadataBlockType : UInt8
  metadataDataBlockLength : UInt32
  minimumBlockSize : UInt16
  maximumBlockSize : UInt16
  minimumFrameSize : UInt32
  maximumFrameSize : UInt32
  sampleRate : UInt32
  numberOfChannels : UInt8
  bitsPerSample : UInt8
  totalSamplesInStream : UInt64
  md5Signature : {bytes : Bytes // bytes.length = 16}
  deriving DecidableEq

structure OpusDecoderConfig where
  version : UInt8
  outputChannelCount : UInt8
  preSkip : UInt16
  inputSampleRate : UInt32
  outputGain : Int16
  mappingFamily : UInt8
  deriving DecidableEq

structure AacLcDecoderConfig where
  objectTypeIndication : UInt8
  streamType : UInt8
  upstream : Bool
  bufferSizeDb : UInt32
  maxBitrate : UInt32
  avgBitrate : UInt32
  audioObjectType : UInt8
  samplingFrequencyIndex : UInt8
  channelConfiguration : UInt8
  frameLengthFlag : Bool
  dependsOnCoreCoder : Bool
  extensionFlag : Bool
  deriving DecidableEq

inductive DecoderConfig where
  | lpcm (config : LpcmDecoderConfig)
  | flac (config : FlacDecoderConfig)
  | opus (config : OpusDecoderConfig)
  | aacLc (config : AacLcDecoderConfig)
  | raw (codecId : CodecId) (bytes : Bytes)
  deriving DecidableEq

structure CodecConfig where
  codecConfigId : UInt32
  codecId : CodecId
  numSamplesPerFrame : UInt32
  audioRollDistance : Int16
  decoderConfig : DecoderConfig
  trailing : Bytes
  deriving DecidableEq

def requiredAudioRollDistance : DecoderConfig → Int16
  | .lpcm _ | .flac _ => 0
  | .aacLc _ => aacLcAudioRollDistance
  | .opus _ | .raw _ _ => 0

def requiredOpusAudioRollDistance (numSamplesPerFrame : UInt32) : Except Error Int16 :=
  if numSamplesPerFrame = 0 then .error ⟨.zeroSamplesPerFrame, .field "num_samples_per_frame"⟩
  else
    let quotient := 3840 / numSamplesPerFrame.toNat
    let remainder := 3840 % numSamplesPerFrame.toNat
    let ceiling := quotient + (if remainder ≠ 0 then 1 else 0)
    if ceiling ≤ 32767 then .ok (Int16.ofInt (-(ceiling : Int)))
    else .error ⟨.framePlanOverflow, .field "num_samples_per_frame"⟩

def aacLcSamplingFrequencyIndex (sampleRate : UInt32) : Option UInt8 :=
  (aacLcSampleRates.findIdx? (· == sampleRate)).map UInt8.ofNat

def aacLcOutputSampleRate (samplingFrequencyIndex : UInt8) : Option UInt32 :=
  aacLcSampleRates[samplingFrequencyIndex.toNat]?

namespace CodecConfig

def lpcmConfig (c : CodecConfig) : Option LpcmDecoderConfig :=
  match c.decoderConfig with
  | .lpcm cfg => some cfg
  | _ => none

def flacConfig (c : CodecConfig) : Option FlacDecoderConfig :=
  match c.decoderConfig with
  | .flac cfg => some cfg
  | _ => none

def opusConfig (c : CodecConfig) : Option OpusDecoderConfig :=
  match c.decoderConfig with
  | .opus cfg => some cfg
  | _ => none

def aacLcConfig (c : CodecConfig) : Option AacLcDecoderConfig :=
  match c.decoderConfig with
  | .aacLc cfg => some cfg
  | _ => none

def lpcm (codecConfigId numSamplesPerFrame : UInt32) (decoderConfig : LpcmDecoderConfig) : CodecConfig :=
  ⟨codecConfigId, codecIdLpcm, numSamplesPerFrame, requiredAudioRollDistance (.lpcm decoderConfig),
    .lpcm decoderConfig, []⟩

def flac (codecConfigId numSamplesPerFrame sampleRate : UInt32) (bitsPerSample : UInt8) :
    Except Error CodecConfig := do
  if sampleRate = 0 ∨ sampleRate.toNat > flacMaxSampleRate then
    throw ⟨.sampleRateNotSupportedByCodec, .field "sample_rate"⟩
  if numSamplesPerFrame.toNat < 16 ∨ numSamplesPerFrame.toNat > 65535 then
    throw ⟨.samplesPerFrameNotSupportedByCodec, .field "num_samples_per_frame"⟩
  if bitsPerSample.toNat < 4 ∨ bitsPerSample.toNat > 32 then
    throw ⟨.bitsPerSampleNotSupportedByCodec, .field "bits_per_sample"⟩
  let blockSize := UInt16.ofNat numSamplesPerFrame.toNat
  let decoderConfig : DecoderConfig := .flac
    { lastMetadataBlock := true, metadataBlockType := 0, metadataDataBlockLength := flacStreaminfoBytes,
      minimumBlockSize := blockSize, maximumBlockSize := blockSize, minimumFrameSize := 0,
      maximumFrameSize := 0, sampleRate := sampleRate, numberOfChannels := 1,
      bitsPerSample := bitsPerSample - 1, totalSamplesInStream := 0,
      md5Signature := ⟨List.replicate 16 0, rfl⟩ }
  pure ⟨codecConfigId, codecIdFlac, numSamplesPerFrame, requiredAudioRollDistance decoderConfig, decoderConfig, []⟩

def opus (codecConfigId numSamplesPerFrame sampleRate : UInt32) (preSkip : UInt16) :
    Except Error CodecConfig := do
  if sampleRate ≠ opusSampleRate then throw ⟨.sampleRateNotSupportedByCodec, .field "sample_rate"⟩
  let audioRollDistance ← requiredOpusAudioRollDistance numSamplesPerFrame
  pure ⟨codecConfigId, codecIdOpus, numSamplesPerFrame, audioRollDistance,
    .opus ⟨1, 2, preSkip, sampleRate, 0, 0⟩, []⟩

def aacLc (codecConfigId sampleRate : UInt32) : Except Error CodecConfig :=
  match aacLcSamplingFrequencyIndex sampleRate with
  | none => .error ⟨.sampleRateNotSupportedByCodec, .field "sample_rate"⟩
  | some samplingFrequencyIndex => .ok ⟨codecConfigId, codecIdAac, aacLcNumSamplesPerFrame, aacLcAudioRollDistance,
    .aacLc ⟨aacLcObjectTypeIndication, aacLcStreamType, false, 0, 0, 0, aacLcAudioObjectType,
      samplingFrequencyIndex, aacLcChannelConfiguration, false, false, false⟩, []⟩

def findingUnless (ok : Bool) (name template : String) (args : List MessageArg) : List Finding :=
  findingIf (!ok) (.at name template args)

def validateLpcm (lpcm : LpcmDecoderConfig) : List Finding :=
  findingUnless (match lpcm.sampleFormatFlags with | .reserved _ => false | _ => true) "sample_format_flags"
    "sample_format_flags is {}, outside \x7b0 (big-endian), 1 (little-endian)\x7d"
    [.number lpcm.sampleFormatFlags.value.toNat] ++
  findingUnless ([16, 24, 32].contains lpcm.sampleSize.toNat) "sample_size"
    "sample_size is {}, outside \x7b16, 24, 32\x7d; libiamf@v1.1.0 does not check this and falls through to a 16-bit little-endian reader with no error"
    [.number lpcm.sampleSize.toNat] ++
  findingUnless (validSampleRates.contains lpcm.sampleRate.toNat) "sample_rate"
    "sample_rate is {}, outside {}" [.number lpcm.sampleRate.toNat, .list validSampleRates]

def validateFlac (numSamplesPerFrame : UInt32) (flac : FlacDecoderConfig) : List Finding :=
  findingUnless flac.lastMetadataBlock "last_metadata_block"
    "last_metadata_block is false, expected true for the one-block FLAC config" [] ++
  findingUnless (flac.metadataBlockType == 0) "metadata_block_type"
    "metadata_block_type is {}, expected 0 (STREAMINFO)" [.number flac.metadataBlockType.toNat] ++
  findingUnless (flac.metadataDataBlockLength == flacStreaminfoBytes) "metadata_data_block_length"
    "metadata_data_block_length is {}, expected {}"
    [.number flac.metadataDataBlockLength.toNat, .number flacStreaminfoBytes.toNat] ++
  findingUnless (flac.minimumBlockSize.toNat == numSamplesPerFrame.toNat && 16 ≤ flac.minimumBlockSize.toNat)
    "minimum_block_size" "minimum_block_size is {}, expected num_samples_per_frame {} and at least 16"
    [.number flac.minimumBlockSize.toNat, .number numSamplesPerFrame.toNat] ++
  findingUnless (flac.maximumBlockSize.toNat == numSamplesPerFrame.toNat && 16 ≤ flac.maximumBlockSize.toNat)
    "maximum_block_size" "maximum_block_size is {}, expected num_samples_per_frame {} and at least 16"
    [.number flac.maximumBlockSize.toNat, .number numSamplesPerFrame.toNat] ++
  findingUnless (flac.minimumFrameSize == 0) "minimum_frame_size" "minimum_frame_size is {}, expected 0"
    [.number flac.minimumFrameSize.toNat] ++
  findingUnless (flac.maximumFrameSize == 0) "maximum_frame_size" "maximum_frame_size is {}, expected 0"
    [.number flac.maximumFrameSize.toNat] ++
  findingUnless (flac.sampleRate != 0 && flac.sampleRate.toNat ≤ flacMaxSampleRate) "sample_rate"
    "sample_rate is {}, outside 1..={}" [.number flac.sampleRate.toNat, .number flacMaxSampleRate] ++
  findingUnless (flac.numberOfChannels == 1) "number_of_channels" "number_of_channels is {}, expected 1"
    [.number flac.numberOfChannels.toNat] ++
  findingUnless (3 ≤ flac.bitsPerSample.toNat && flac.bitsPerSample.toNat ≤ 31) "bits_per_sample"
    "bits_per_sample raw value is {}, outside 3..=31 (actual 4..=32)" [.number flac.bitsPerSample.toNat] ++
  findingUnless (flac.totalSamplesInStream.toNat ≤ flacMaxTotalSamples) "total_samples_in_stream"
    "total_samples_in_stream is {}, outside 0..={}"
    [.number flac.totalSamplesInStream.toNat, .number flacMaxTotalSamples] ++
  findingUnless (flac.md5Signature.val == List.replicate 16 0) "md5_signature"
    "md5_signature is not the all-zero IAMF value" []

def validateOpus (opus : OpusDecoderConfig) : List Finding :=
  findingUnless (1 ≤ opus.version.toNat && opus.version.toNat ≤ 15) "version"
    "version is {}, outside the supported 1..=15" [.number opus.version.toNat] ++
  findingUnless (opus.outputChannelCount == 2) "output_channel_count" "output_channel_count is {}, expected 2"
    [.number opus.outputChannelCount.toNat] ++
  findingUnless (opus.preSkip != 0) "pre_skip" "pre_skip is zero, expected measured non-zero encoder lookahead" [] ++
  findingUnless (opus.inputSampleRate == opusSampleRate) "input_sample_rate" "input_sample_rate is {}, expected {}"
    [.number opus.inputSampleRate.toNat, .number opusSampleRate.toNat] ++
  findingUnless (opus.outputGain == 0) "output_gain" "output_gain is {}, expected 0" [.signed opus.outputGain.toInt] ++
  findingUnless (opus.mappingFamily == 0) "mapping_family" "mapping_family is {}, expected 0"
    [.number opus.mappingFamily.toNat]

def validateAacLc (numSamplesPerFrame : UInt32) (aacLc : AacLcDecoderConfig) : List Finding :=
  findingUnless (aacLc.bufferSizeDb.toNat ≤ aacLcMaxBufferSizeDb) "buffer_size_db"
    "buffer_size_db is {}, outside 0..={}" [.number aacLc.bufferSizeDb.toNat, .number aacLcMaxBufferSizeDb] ++
  findingUnless (aacLc.objectTypeIndication == aacLcObjectTypeIndication) "object_type_indication"
    "object_type_indication is {}, expected {}"
    [.hex aacLc.objectTypeIndication.toNat, .hex aacLcObjectTypeIndication.toNat] ++
  findingUnless (aacLc.streamType == aacLcStreamType) "stream_type" "stream_type is {}, expected {}"
    [.number aacLc.streamType.toNat, .number aacLcStreamType.toNat] ++
  findingUnless (!aacLc.upstream) "upstream" "upstream is true, expected false" [] ++
  findingUnless (aacLc.audioObjectType == aacLcAudioObjectType) "audio_object_type"
    "audio_object_type is {}, expected {}" [.number aacLc.audioObjectType.toNat, .number aacLcAudioObjectType.toNat] ++
  findingUnless (aacLc.samplingFrequencyIndex.toNat < aacLcSampleRates.length) "sampling_frequency_index"
    "sampling_frequency_index is {}, outside 0..={}"
    [.number aacLc.samplingFrequencyIndex.toNat, .number (aacLcSampleRates.length - 1)] ++
  findingUnless (aacLc.channelConfiguration == aacLcChannelConfiguration) "channel_configuration"
    "channel_configuration is {}, expected {}"
    [.number aacLc.channelConfiguration.toNat, .number aacLcChannelConfiguration.toNat] ++
  findingUnless (!aacLc.frameLengthFlag) "frame_length_flag" "frame_length_flag is true, expected false" [] ++
  findingUnless (!aacLc.dependsOnCoreCoder) "depends_on_core_coder"
    "depends_on_core_coder is true, expected false" [] ++
  findingUnless (!aacLc.extensionFlag) "extension_flag" "extension_flag is true, expected false" [] ++
  findingUnless (numSamplesPerFrame == aacLcNumSamplesPerFrame) "num_samples_per_frame"
    "num_samples_per_frame is {}, expected {}"
    [.number numSamplesPerFrame.toNat, .number aacLcNumSamplesPerFrame.toNat]

def requiredRoll (c : CodecConfig) : Option Int16 :=
  match c.decoderConfig with
  | .opus _ => (requiredOpusAudioRollDistance c.numSamplesPerFrame).toOption
  | .aacLc _ => some aacLcAudioRollDistance
  | _ => some (requiredAudioRollDistance c.decoderConfig)

def validate (c : CodecConfig) : List Finding :=
  findingUnless ([codecIdLpcm, codecIdOpus, codecIdFlac, codecIdAac].contains c.codecId) "codec_id"
    "codec_id {} is not one of ipcm/Opus/fLaC/mp4a; both libiamf revisions reject an unknown codec_id outright"
    [.text c.codecId.val] ++
  findingUnless (c.numSamplesPerFrame != 0 && c.numSamplesPerFrame.toNat ≤ maxSamplesPerFrame) "num_samples_per_frame"
    "num_samples_per_frame is {}, outside 1..={}" [.number c.numSamplesPerFrame.toNat, .number maxSamplesPerFrame] ++
  (match c.decoderConfig with
    | .lpcm cfg => validateLpcm cfg
    | .flac cfg => validateFlac c.numSamplesPerFrame cfg
    | .opus cfg => validateOpus cfg
    | .aacLc cfg => validateAacLc c.numSamplesPerFrame cfg
    | .raw _ _ => []) ++
  match c.requiredRoll with
  | none => []
  | some required => findingUnless (c.audioRollDistance == required) "audio_roll_distance"
      "audio_roll_distance is {}, expected {} for this codec" [.signed c.audioRollDistance.toInt, .signed required.toInt]

end CodecConfig

def isAacLcDescriptor (descriptor : Bytes) : Bool :=
  descriptor.length == aacLcDecoderConfigBytes && descriptor[0]? == some 0x04 && descriptor[1]? == some 17 &&
    descriptor[15]? == some 0x05 && descriptor[16]? == some 2 &&
    descriptor[3]?.any fun streamAndFlags => streamAndFlags &&& 1 == 1

def readLpcmDecoderConfig : Reader LpcmDecoderConfig := do
  let sampleFormatFlags ← readU8 8
  let sampleSize ← readU8 8
  let sampleRate ← readU32 32
  pure ⟨.fromValue sampleFormatFlags, sampleSize, sampleRate⟩

def writeLpcmDecoderConfig (v : LpcmDecoderConfig) : Writer Unit := do
  writeUnsigned v.sampleFormatFlags.value.toNat 8
  writeUnsigned v.sampleSize.toNat 8
  writeUnsigned v.sampleRate.toNat 32

def readOpusDecoderConfig : Reader OpusDecoderConfig := do
  let version ← readU8 8
  let outputChannelCount ← readU8 8
  let preSkip ← readU16 16
  let inputSampleRate ← readU32 32
  let outputGain ← readI16
  let mappingFamily ← readU8 8
  pure ⟨version, outputChannelCount, preSkip, inputSampleRate, outputGain, mappingFamily⟩

def writeOpusDecoderConfig (v : OpusDecoderConfig) : Writer Unit := do
  writeUnsigned v.version.toNat 8
  writeUnsigned v.outputChannelCount.toNat 8
  writeUnsigned v.preSkip.toNat 16
  writeUnsigned v.inputSampleRate.toNat 32
  writeSigned v.outputGain.toInt 16
  writeUnsigned v.mappingFamily.toNat 8

def readFlacDecoderConfig : Reader FlacDecoderConfig := do
  let lastMetadataBlock ← readBool
  let metadataBlockType ← readU8 7
  let metadataDataBlockLength ← readU32 24
  let minimumBlockSize ← readU16 16
  let maximumBlockSize ← readU16 16
  let minimumFrameSize ← readU32 24
  let maximumFrameSize ← readU32 24
  let sampleRate ← readU32 20
  let numberOfChannels ← readU8 3
  let bitsPerSample ← readU8 5
  let totalSamplesInStream ← readU64 36
  let md5Signature ← readArray 16
  pure ⟨lastMetadataBlock, metadataBlockType, metadataDataBlockLength, minimumBlockSize, maximumBlockSize,
    minimumFrameSize, maximumFrameSize, sampleRate, numberOfChannels, bitsPerSample, totalSamplesInStream,
    md5Signature⟩

def writeFlacDecoderConfig (v : FlacDecoderConfig) : Writer Unit := do
  writeBool v.lastMetadataBlock
  writeUnsigned v.metadataBlockType.toNat 7
  writeUnsigned v.metadataDataBlockLength.toNat 24
  writeUnsigned v.minimumBlockSize.toNat 16
  writeUnsigned v.maximumBlockSize.toNat 16
  writeUnsigned v.minimumFrameSize.toNat 24
  writeUnsigned v.maximumFrameSize.toNat 24
  writeUnsigned v.sampleRate.toNat 20
  writeUnsigned v.numberOfChannels.toNat 3
  writeUnsigned v.bitsPerSample.toNat 5
  writeUnsigned v.totalSamplesInStream.toNat 36
  writeBytes v.md5Signature.val

-- the fields of an AAC-LC `DecoderConfigDescriptor`; its tags, lengths and reserved bit are read and dropped
def readAacLcFields : Reader AacLcDecoderConfig := do
  let _tag ← readUnsigned 8
  let _length ← readUnsigned 8
  let objectTypeIndication ← readU8 8
  let streamType ← readU8 6
  let upstream ← readBool
  let _reserved ← readBool
  let bufferSizeDb ← readU32 24
  let maxBitrate ← readU32 32
  let avgBitrate ← readU32 32
  let _specificTag ← readUnsigned 8
  let _specificLength ← readUnsigned 8
  let audioObjectType ← readU8 5
  let samplingFrequencyIndex ← readU8 4
  let channelConfiguration ← readU8 4
  let frameLengthFlag ← readBool
  let dependsOnCoreCoder ← readBool
  let extensionFlag ← readBool
  pure ⟨objectTypeIndication, streamType, upstream, bufferSizeDb, maxBitrate, avgBitrate, audioObjectType,
    samplingFrequencyIndex, channelConfiguration, frameLengthFlag, dependsOnCoreCoder, extensionFlag⟩

def readAacLcDecoderConfig (descriptor : Bytes) : Except Error DecoderConfig :=
  match readAacLcFields (BitCursor.new descriptor) with
  | .ok cfg _ => .ok (.aacLc cfg)
  | .error e _ => .error e

def writeAacLcDecoderConfig (v : AacLcDecoderConfig) : Writer Unit := do
  writeUnsigned 0x04 8
  writeUnsigned 17 8
  writeUnsigned v.objectTypeIndication.toNat 8
  writeUnsigned v.streamType.toNat 6
  writeBool v.upstream
  writeBool true
  writeUnsigned v.bufferSizeDb.toNat 24
  writeUnsigned v.maxBitrate.toNat 32
  writeUnsigned v.avgBitrate.toNat 32
  writeUnsigned 0x05 8
  writeUnsigned 2 8
  writeUnsigned v.audioObjectType.toNat 5
  writeUnsigned v.samplingFrequencyIndex.toNat 4
  writeUnsigned v.channelConfiguration.toNat 4
  writeBool v.frameLengthFlag
  writeBool v.dependsOnCoreCoder
  writeBool v.extensionFlag

def readDecoderConfig (codecId : CodecId) : Reader DecoderConfig := do
  let remaining ← bytesRemaining
  if codecId = codecIdLpcm ∧ remaining ≥ lpcmDecoderConfigBytes then do
    let cfg ← readLpcmDecoderConfig
    pure (.lpcm cfg)
  else if codecId = codecIdFlac ∧ remaining ≥ flacDecoderConfigBytes then do
    let cfg ← readFlacDecoderConfig
    pure (.flac cfg)
  else if codecId = codecIdOpus ∧ remaining ≥ opusDecoderConfigBytes then do
    let cfg ← readOpusDecoderConfig
    pure (.opus cfg)
  else if codecId = codecIdAac ∧ remaining ≥ aacLcDecoderConfigBytes then do
    let descriptor ← readUint8Span aacLcDecoderConfigBytes
    if isAacLcDescriptor descriptor then orThrow (readAacLcDecoderConfig descriptor)
    else do
      let more ← readTrailing
      pure (.raw codecId (descriptor ++ more))
  else do
    let bytes ← readTrailing
    pure (.raw codecId bytes)

def writeDecoderConfig : DecoderConfig → Writer Unit
  | .lpcm cfg => writeLpcmDecoderConfig cfg
  | .flac cfg => writeFlacDecoderConfig cfg
  | .opus cfg => writeOpusDecoderConfig cfg
  | .aacLc cfg => writeAacLcDecoderConfig cfg
  | .raw _ bytes => writeBytes bytes

section

variable [UlebForm]

def readCodecConfigBody : Reader CodecConfig := do
  let codecConfigId ← readUleb128
  let codecId ← readArray 4
  let numSamplesPerFrame ← readUleb128
  let audioRollDistance ← readI16
  let decoderConfig ← readDecoderConfig codecId
  pure ⟨codecConfigId, codecId, numSamplesPerFrame, audioRollDistance, decoderConfig, []⟩

def readCodecConfig : Reader CodecConfig := do
  let config ← readCodecConfigBody
  let trailing ← readTrailing
  pure { config with trailing := trailing }

end

def writeCodecConfig (v : CodecConfig) : Writer Unit := do
  writeUleb128Minimal v.codecConfigId
  writeBytes v.codecId.val
  writeUleb128Minimal v.numSamplesPerFrame
  writeSigned v.audioRollDistance.toInt 16
  writeDecoderConfig v.decoderConfig
  writeBytes v.trailing

end Iamf.Wire
