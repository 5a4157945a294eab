import Iamf.AcceptedUnits
import Iamf.AudioElement
import Iamf.AudioElementCodec
import Iamf.AudioFrame
import Iamf.Binary64
import Iamf.BitCursor
import Iamf.BitFields
import Iamf.BitInverse
import Iamf.BitString
import Iamf.BitWriter
import Iamf.Blocks
import Iamf.BoundaryGrammar
import Iamf.BrokenRuns
import Iamf.BuilderChecks
import Iamf.BuiltDescriptors
import Iamf.BuiltEncoder
import Iamf.BuiltSubstreams
import Iamf.CodecConfig
import Iamf.CodecConfigCodec
import Iamf.CrossReferences
import Iamf.CutReaders
import Iamf.DecodedSize
import Iamf.DescriptorFits
import Iamf.DescriptorSet
import Iamf.Dump
import Iamf.DumpRows
import Iamf.DumpText
import Iamf.EmitsWithin
import Iamf.EncoderBuild
import Iamf.EncoderBuilder
import Iamf.EncoderRoundTrip
import Iamf.EncoderStart
import Iamf.EncoderValidates
import Iamf.EncodingRuns
import Iamf.EncodingWriter
import Iamf.Error
import Iamf.FramePlan
import Iamf.FuzzTargets
import Iamf.Fuzzing
import Iamf.GreedyLanguage
import Iamf.HandleIds
import Iamf.HexText
import Iamf.IdWidths
import Iamf.Keyed
import Iamf.LanguageTag
import Iamf.LanguageTagGrammar
import Iamf.Layout
import Iamf.Leb128
import Iamf.Leb128Exact
import Iamf.Leb128Field
import Iamf.LocatedErrors
import Iamf.LoudnessScale
import Iamf.LpcmFrames
import Iamf.LpcmRoundTrip
import Iamf.MixPresentation
import Iamf.MixPresentationCodec
import Iamf.ObuBoundaries
import Iamf.ObuFrame
import Iamf.ObuHeader
import Iamf.ObuRoundTrip
import Iamf.PackedSubstreams
import Iamf.Packing
import Iamf.ParamDefinition
import Iamf.ParamRegistry
import Iamf.ParameterBlock
import Iamf.ParameterBlockCodec
import Iamf.Payload
import Iamf.PayloadInverses
import Iamf.Preflight
import Iamf.Profile
import Iamf.ProfileRules
import Iamf.ProfileSelection
import Iamf.Ranges
import Iamf.ReceivedUnits
import Iamf.RecoveredUnits
import Iamf.RejectedPushes
import Iamf.RepairedOutput
import Iamf.RepeatedDescriptors
import Iamf.Resized
import Iamf.SendableObus
import Iamf.SequenceBoundaries
import Iamf.SequenceEmit
import Iamf.SequenceErrors
import Iamf.SequenceHeader
import Iamf.SequencePrefix
import Iamf.SequenceReader
import Iamf.SequenceRoundTrip
import Iamf.SequenceSource
import Iamf.SequenceValidate
import Iamf.SequenceWriter
import Iamf.SequenceWriterFlat
import Iamf.SequenceWriterRuns
import Iamf.SequenceWriterSteps
import Iamf.SignedRegister
import Iamf.Sink
import Iamf.TagGrammar
import Iamf.TapeCodec
import Iamf.TapeCost
import Iamf.TemplateIds
import Iamf.TemporalUnitRanges
import Iamf.ThinnedStreams
import Iamf.TiesToEven
import Iamf.TrimTimeline
import Iamf.TruncatedStreams
import Iamf.UnitPartition
import Iamf.ValidatorsAgree
