import Iamf.Error

/-! Loudspeaker layouts, ambisonics configurations and sound systems: the numbers they
carry on the wire and the channels they stand for. -/
namespace Iamf.Wire

inductive ExpandedLoudspeakerLayout where
  | lfe
  | stereoS
  | stereoSs
  | stereoRs
  | stereoTf
  | stereoTb
  | top4Ch
  | ch3_0
  | ch9_1_6
  | stereoF
  | stereoSi
  | stereoTpSi
  | top6Ch
  | reserved (raw : UInt8)
  deriving DecidableEq, Repr

namespace ExpandedLoudspeakerLayout

def channelCount : ExpandedLoudspeakerLayout → Option Nat
  | .lfe => some 1
  | .stereoS | .stereoSs | .stereoRs | .stereoTf | .stereoTb | .stereoF | .stereoSi | .stereoTpSi => some 2
  | .top4Ch => some 4
  | .ch3_0 => some 3
  | .ch9_1_6 => some 16
  | .top6Ch => some 6
  | .reserved _ => none

def singleLayerSubstreamCounts : ExpandedLoudspeakerLayout → Option (UInt8 × UInt8)
  | .lfe => some (1, 0)
  | .stereoS | .stereoSs | .stereoRs | .stereoTf | .stereoTb | .stereoF | .stereoSi | .stereoTpSi => some (1, 1)
  | .top4Ch => some (2, 2)
  | .ch3_0 => some (2, 1)
  | .ch9_1_6 => some (9, 7)
  | .top6Ch => some (3, 3)
  | .reserved _ => none

def value : ExpandedLoudspeakerLayout → UInt8
  | .lfe => 0
  | .stereoS => 1
  | .stereoSs => 2
  | .stereoRs => 3
  | .stereoTf => 4
  | .stereoTb => 5
  | .top4Ch => 6
  | .ch3_0 => 7
  | .ch9_1_6 => 8
  | .stereoF => 9
  | .stereoSi => 10
  | .stereoTpSi => 11
  | .top6Ch => 12
  | .reserved raw => raw

def fromValue (value : UInt8) : ExpandedLoudspeakerLayout :=
  match value with
  | 0 => .lfe
  | 1 => .stereoS
  | 2 => .stereoSs
  | 3 => .stereoRs
  | 4 => .stereoTf
  | 5 => .stereoTb
  | 6 => .top4Ch
  | 7 => .ch3_0
  | 8 => .ch9_1_6
  | 9 => .stereoF
  | 10 => .stereoSi
  | 11 => .stereoTpSi
  | 12 => .top6Ch
  | other => .reserved other

def Plain (l : ExpandedLoudspeakerLayout) : Prop := fromValue l.value = l

theorem valueOfFromValue (v : UInt8) : (fromValue v).value = v := by
  unfold fromValue
  split <;> rfl

theorem fromValuePlain (v : UInt8) : (fromValue v).Plain := by
  rw [Plain, valueOfFromValue]

end ExpandedLoudspeakerLayout

inductive LoudspeakerLayout where
  | mono
  | stereo
  | ch5_1
  | ch5_1_2
  | ch5_1_4
  | ch7_1
  | ch7_1_2
  | ch7_1_4
  | ch3_1_2
  | binaural
  | reserved (raw : UInt8)
  | expanded (layout : ExpandedLoudspeakerLayout)
  deriving DecidableEq, Repr

namespace LoudspeakerLayout

def value : LoudspeakerLayout → UInt8
  | .mono => 0
  | .stereo => 1
  | .ch5_1 => 2
  | .ch5_1_2 => 3
  | .ch5_1_4 => 4
  | .ch7_1 => 5
  | .ch7_1_2 => 6
  | .ch7_1_4 => 7
  | .ch3_1_2 => 8
  | .binaural => 9
  | .reserved raw => raw
  | .expanded _ => 15

-- `none` announces an expanded layout, whose own number follows
def fromValue (value : UInt8) : Option LoudspeakerLayout :=
  match value with
  | 0 => some .mono
  | 1 => some .stereo
  | 2 => some .ch5_1
  | 3 => some .ch5_1_2
  | 4 => some .ch5_1_4
  | 5 => some .ch7_1
  | 6 => some .ch7_1_2
  | 7 => some .ch7_1_4
  | 8 => some .ch3_1_2
  | 9 => some .binaural
  | other => if 10 ≤ other.toNat ∧ other.toNat ≤ 14 then some (.reserved other) else none

def channelCount : LoudspeakerLayout → Option Nat
  | .mono => some 1
  | .stereo => some 2
  | .ch5_1 => some 6
  | .ch5_1_2 => some 8
  | .ch5_1_4 => some 10
  | .ch7_1 => some 8
  | .ch7_1_2 => some 10
  | .ch7_1_4 => some 12
  | .ch3_1_2 => some 6
  | .binaural => some 2
  | .reserved _ => none
  | .expanded layout => layout.channelCount

def singleLayerSubstreamCounts : LoudspeakerLayout → Option (UInt8 × UInt8)
  | .mono => some (1, 0)
  | .stereo => some (1, 1)
  | .ch5_1 => some (4, 2)
  | .ch5_1_2 => some (5, 3)
  | .ch5_1_4 => some (6, 4)
  | .ch7_1 => some (5, 3)
  | .ch7_1_2 => some (6, 4)
  | .ch7_1_4 => some (7, 5)
  | .ch3_1_2 => some (4, 2)
  | .binaural => some (1, 1)
  | .reserved _ => none
  | .expanded layout => layout.singleLayerSubstreamCounts

def expandedLayout : LoudspeakerLayout → Option ExpandedLoudspeakerLayout
  | .expanded layout => some layout
  | _ => none

def Plain : LoudspeakerLayout → Prop
  | .expanded layout => layout.Plain
  | other => fromValue other.value = some other

theorem fromValueSome {v : UInt8} {l : LoudspeakerLayout} (found : fromValue v = some l) :
    l.value = v ∧ l.expandedLayout = none ∧ l.Plain := by
  have same := found
  unfold fromValue at found
  split at found
  all_goals first
    | (cases found; exact ⟨rfl, rfl, rfl⟩)
    | (split_ifs at found; cases found; exact ⟨rfl, rfl, same⟩)

theorem fromValueNone {v : UInt8} (small : v.toNat < 16) (none : fromValue v = none) : v = 15 := by
  unfold fromValue at none
  split at none
  all_goals first
    | cases none
    | skip
  rename_i n0 n1 n2 n3 n4 n5 n6 n7 n8 n9
  split_ifs at none with range
  apply UInt8.toNat_inj.mp
  have ne {k : UInt8} (h : v = k → False) : v.toNat ≠ k.toNat := fun same => h (UInt8.toNat_inj.mp same)
  have := ne n0; have := ne n1; have := ne n2; have := ne n3; have := ne n4
  have := ne n5; have := ne n6; have := ne n7; have := ne n8; have := ne n9
  simp at *
  omega

end LoudspeakerLayout

structure AmbisonicsMonoConfig where
  outputChannelCount : UInt8
  substreamCount : UInt8
  channelMapping : List UInt8
  deriving DecidableEq, Repr

structure AmbisonicsProjectionConfig where
  outputChannelCount : UInt8
  substreamCount : UInt8
  coupledSubstreamCount : UInt8
  demixingMatrix : List Int16
  deriving DecidableEq

inductive AmbisonicsConfig where
  | mono (config : AmbisonicsMonoConfig)
  | projection (config : AmbisonicsProjectionConfig)
  | reserved (mode : UInt32)
  deriving DecidableEq

namespace AmbisonicsConfig

def outputChannelCount : AmbisonicsConfig → Option UInt8
  | .mono config => some config.outputChannelCount
  | .projection config => some config.outputChannelCount
  | .reserved _ => none

def mode : AmbisonicsConfig → UInt32
  | .mono _ => 0
  | .projection _ => 1
  | .reserved mode => mode

end AmbisonicsConfig

inductive SoundSystem where
  | a0_2_0
  | b0_5_0
  | c2_5_0
  | d4_5_0
  | e4_5_1
  | f3_7_0
  | g4_9_0
  | h9_10_3
  | i0_7_0
  | j4_7_0
  | ss10_2_7_0
  | ss11_2_3_0
  | ss12_0_1_0
  | ss13_6_9_0
  | reserved (raw : UInt8)
  deriving DecidableEq, Repr

namespace SoundSystem

def value : SoundSystem → UInt8
  | .a0_2_0 => 0
  | .b0_5_0 => 1
  | .c2_5_0 => 2
  | .d4_5_0 => 3
  | .e4_5_1 => 4
  | .f3_7_0 => 5
  | .g4_9_0 => 6
  | .h9_10_3 => 7
  | .i0_7_0 => 8
  | .j4_7_0 => 9
  | .ss10_2_7_0 => 10
  | .ss11_2_3_0 => 11
  | .ss12_0_1_0 => 12
  | .ss13_6_9_0 => 13
  | .reserved raw => raw

def fromValue (value : UInt8) : SoundSystem :=
  match value with
  | 0 => .a0_2_0
  | 1 => .b0_5_0
  | 2 => .c2_5_0
  | 3 => .d4_5_0
  | 4 => .e4_5_1
  | 5 => .f3_7_0
  | 6 => .g4_9_0
  | 7 => .h9_10_3
  | 8 => .i0_7_0
  | 9 => .j4_7_0
  | 10 => .ss10_2_7_0
  | 11 => .ss11_2_3_0
  | 12 => .ss12_0_1_0
  | 13 => .ss13_6_9_0
  | other => .reserved other

def Plain (s : SoundSystem) : Prop := fromValue s.value = s

theorem valueOfFromValue (v : UInt8) : (fromValue v).value = v := by
  unfold fromValue
  split <;> rfl

theorem fromValuePlain (v : UInt8) : (fromValue v).Plain := by
  rw [Plain, valueOfFromValue]

end SoundSystem

end Iamf.Wire
