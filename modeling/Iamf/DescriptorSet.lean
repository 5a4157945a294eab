import Iamf.SequenceRoundTrip

/-! The descriptors and temporal units a sequence is written from, and the one order in which
they stand on the wire. -/
namespace Iamf.Wire
open Bits BitString TapeCodec WriteTape

structure DescriptorSet where
  sequenceHeader : IaSequenceHeader
  codecConfigs : List CodecConfig
  audioElements : List AudioElement
  mixPresentations : List MixPresentation
  deriving DecidableEq

structure TemporalUnit where
  temporalDelimiter : Option TemporalDelimiter
  parameterBlocks : List (Obu ParameterBlock)
  audioFrames : List (Obu AudioFrame)
  deriving DecidableEq

def sortedById {T : Type} (id : T → UInt32) (items : List T) : List T := items.mergeSort fun a b => id a ≤ id b

namespace DescriptorSet

def sortedConfigs (set : DescriptorSet) : List CodecConfig := sortedById (·.codecConfigId) set.codecConfigs

def sortedElements (set : DescriptorSet) : List AudioElement := sortedById (·.audioElementId) set.audioElements

end DescriptorSet

def ParamDefinitionRegistry.fromDescriptors (set : DescriptorSet) : ParamDefinitionRegistry :=
  set.mixPresentations.foldl observeMixPresentation (set.sortedElements.foldl observeAudioElement .new)

def writeDescriptors (set : DescriptorSet) : Writer Unit := do
  writeObuWith (.new (.new .iaSequenceHeader) set.sequenceHeader) writeIaSequenceHeader
  writeEach (fun config => writeObuWith (.new (.new .codecConfig) config) writeCodecConfig) set.sortedConfigs
  writeEach (fun element => writeObuWith (.new (.new .audioElement) element) writeAudioElement) set.sortedElements
  writeEach (fun presentation => writeObuWith (.new (.new .mixPresentation) presentation) writeMixPresentation)
    set.mixPresentations

namespace SequenceObu

def ofSequenceHeader (header : IaSequenceHeader) : SequenceObu :=
  .iaSequenceHeader ⟨.new .iaSequenceHeader, { header with trailing := [] }, header.trailing⟩

def ofCodecConfig (config : CodecConfig) : SequenceObu :=
  .codecConfig ⟨.new .codecConfig, { config with trailing := [] }, config.trailing⟩

def ofAudioElement (element : AudioElement) : SequenceObu :=
  .audioElement ⟨.new .audioElement, { element with trailing := [] }, element.trailing⟩

def ofMixPresentation (presentation : MixPresentation) : SequenceObu :=
  .mixPresentation ⟨.new .mixPresentation, { presentation with trailing := [] }, presentation.trailing⟩

end SequenceObu

open SequenceObu

def DescriptorSet.obus (set : DescriptorSet) : List SequenceObu :=
  ofSequenceHeader set.sequenceHeader :: (set.sortedConfigs.map ofCodecConfig ++
    (set.sortedElements.map ofAudioElement ++ set.mixPresentations.map ofMixPresentation))

def TemporalUnit.obus (unit : TemporalUnit) : List SequenceObu :=
  unit.temporalDelimiter.toList.map (fun delimiter => .temporalDelimiter (.new (.new .temporalDelimiter) delimiter)) ++
    (unit.parameterBlocks.map .parameterBlock ++ unit.audioFrames.map .audioFrame)

def ParsedSequence.fromParts (descriptors : DescriptorSet) (units : List TemporalUnit) : ParsedSequence :=
  ⟨descriptors.obus ++ units.flatMap (·.obus)⟩

theorem writeSequenceObusAppend (registry : ParamDefinitionRegistry) (xs ys : List SequenceObu) :
    writeSequenceObus registry (xs ++ ys) = (writeSequenceObus registry xs >>= fun _ =>
      writeSequenceObus (xs.foldl ParamDefinitionRegistry.observeObu registry) ys) := by
  induction xs generalizing registry with
  | nil => rfl
  | cons x xs ih =>
    simp only [List.cons_append, writeSequenceObus, ih, List.foldl_cons, bind_assoc]

theorem encodedAppend {registry : ParamDefinitionRegistry} {xs ys : List SequenceObu} {bytes : Bytes} :
    finishWriter (writeSequenceObus registry (xs ++ ys)) = .ok bytes ↔
      ∃ a b, finishWriter (writeSequenceObus registry xs) = .ok a ∧
        finishWriter (writeSequenceObus (xs.foldl ParamDefinitionRegistry.observeObu registry) ys) = .ok b ∧
        bytes = a ++ b := by
  rw [writeSequenceObusAppend]
  exact finishWriterBind (octetsWriteSequenceObus _ xs) (octetsWriteSequenceObus _ ys)

theorem observeUnit (registry : ParamDefinitionRegistry) (unit : TemporalUnit) :
    unit.obus.foldl ParamDefinitionRegistry.observeObu registry = registry := by
  have still (xs : List SequenceObu) (same : ∀ x ∈ xs, registry.observeObu x = registry) :
      xs.foldl ParamDefinitionRegistry.observeObu registry = registry := by
    induction xs with
    | nil => rfl
    | cons x xs ih =>
      rw [List.foldl_cons, same x (by simp)]
      exact ih fun y among => same y (List.mem_cons_of_mem _ among)
  refine still _ fun x among => ?_
  simp only [TemporalUnit.obus, List.mem_append, List.mem_map] at among
  rcases among with ⟨_, _, rfl⟩ | ⟨_, _, rfl⟩ | ⟨_, _, rfl⟩ <;> rfl

theorem observeUnits (registry : ParamDefinitionRegistry) (units : List TemporalUnit) :
    (units.flatMap (·.obus)).foldl ParamDefinitionRegistry.observeObu registry = registry := by
  induction units with
  | nil => rfl
  | cons unit units ih => rw [List.flatMap_cons, List.foldl_append, observeUnit, ih]

theorem observeDescriptors (set : DescriptorSet) :
    set.obus.foldl ParamDefinitionRegistry.observeObu .new = .fromDescriptors set := by
  have configs (registry : ParamDefinitionRegistry) (vs : List CodecConfig) :
      (vs.map ofCodecConfig).foldl ParamDefinitionRegistry.observeObu registry = registry := by
    induction vs with
    | nil => rfl
    | cons v vs ih => exact ih
  have element (registry : ParamDefinitionRegistry) (v : AudioElement) :
      registry.observeObu (ofAudioElement v) = registry.observeAudioElement v := rfl
  have presentation (registry : ParamDefinitionRegistry) (v : MixPresentation) :
      registry.observeObu (ofMixPresentation v) = registry.observeMixPresentation v := rfl
  simp only [DescriptorSet.obus, List.foldl_cons, List.foldl_append, List.foldl_map, configs, element, presentation]
  rfl

structure Agree (g h : Writer Unit) : Prop where
  left : Octets g
  right : Octets h
  same : ∀ bytes, finishWriter g = .ok bytes ↔ finishWriter h = .ok bytes

theorem agreeBind {g g' h h' : Writer Unit} (first : Agree g g') (second : Agree h h') :
    Agree (g >>= fun _ => h) (g' >>= fun _ => h') where
  left := octetsBind first.left second.left
  right := octetsBind first.right second.right
  same bytes := by
    rw [finishWriterBind first.left second.left, finishWriterBind first.right second.right]
    simp only [first.same, second.same]

theorem agreeEach {T : Type} {g : T → Writer Unit} {toObu : T → SequenceObu}
    (each : ∀ v registry, Agree (g v) (writeSequenceObu registry (toObu v))) (vs : List T)
    (registry : ParamDefinitionRegistry) : Agree (writeEach g vs) (writeSequenceObus registry (vs.map toObu)) := by
  induction vs generalizing registry with
  | nil => exact ⟨octetsPure, octetsPure, fun _ => Iff.rfl⟩
  | cons v vs ih => exact agreeBind (each v registry) (ih _)

theorem writeBytesNil : writeBytes [] = pure () := by
  funext w
  unfold writeBytes
  rw [bindOf _ (getWriterOk w), List.append_nil]
  split <;> rfl

theorem finishWriterTrailing {body : Writer Unit} {trailing bytes : Bytes} :
    finishWriter (body >>= fun _ => writeBytes trailing) = .ok bytes ↔
      ∃ front, finishWriter body = .ok front ∧ bytes = front ++ trailing := by
  have opened {w : BitWriter} (ran : body .new = .ok () w) : finishWriter (body >>= fun _ => writeBytes trailing) =
      (append (bytesBits trailing) w).finish := by
    unfold finishWriter runWriter
    rw [bindOf _ ran, emitsBytes trailing w]
    rfl
  constructor
  · intro ok
    cases ran : body .new with
    | error e w =>
      rw [finishWriterError (bindError _ ran)] at ok
      cases ok
    | ok u w =>
      rw [opened ran] at ok
      unfold BitWriter.finish at ok
      split at ok
      · cases ok
      rename_i aligned
      change ¬ (BitWriter.append _ w).bitOff ≠ 0 at aligned
      rw [BitWriter.appendBitOff, bytesBitsLength] at aligned
      have octet := w.inOctet
      have start : w.bitOff = 0 := by omega
      have done : finishWriter body = .ok w.out := by
        unfold finishWriter runWriter
        rw [ran]
        exact if_neg (not_not.mpr start)
      refine ⟨w.out, done, ?_⟩
      have behind : append (bytesBits trailing) w = BitWriter.ofBytes (w.out ++ trailing) :=
        BitWriter.appendBytes trailing w start
      rw [behind] at ok
      exact (Except.ok.inj ok).symm
  · rintro ⟨front, done, rfl⟩
    unfold finishWriter runWriter at done
    split at done
    · rename_i w ran
      change w.finish = .ok front at done
      unfold BitWriter.finish at done
      split at done
      · cases done
      rename_i aligned
      cases done
      have behind : append (bytesBits trailing) w = BitWriter.ofBytes (w.out ++ trailing) :=
        BitWriter.appendBytes trailing w (not_not.mp aligned)
      rw [opened ran, behind]
      rfl
    · cases done

theorem agreeTrailing {T : Type} {header : ObuHeader} {v own : T} {trailing : Bytes} {write : T → Writer Unit}
    (moved : write v = (write own >>= fun _ => writeBytes trailing)) :
    Agree (writeObuWith (.new header v) write) (writeObuWith ⟨header, own, trailing⟩ write) where
  left := octetsWriteObuWithHeader (.new header v) fun _ => write
  right := octetsWriteObuWithHeader ⟨header, own, trailing⟩ fun _ => write
  same bytes := by
    unfold writeObuWith
    rw [writeObuWithHeaderFinished, writeObuWithHeaderFinished]
    simp only [Obu.new, moved, List.append_nil, finishWriterTrailing]
    constructor
    · rintro ⟨_, ⟨front, encoded, rfl⟩, framed⟩
      exact ⟨front, encoded, framed⟩
    · rintro ⟨front, encoded, framed⟩
      exact ⟨_, ⟨front, encoded, rfl⟩, framed⟩

theorem agreeDescriptors (set : DescriptorSet) : Agree (writeDescriptors set) (writeSequenceObus .new set.obus) := by
  unfold writeDescriptors
  simp only [DescriptorSet.obus, writeSequenceObus, writeSequenceObusAppend]
  refine agreeBind (agreeTrailing ?_) (agreeBind (agreeEach (fun config registry => agreeTrailing ?_) _ _)
    (agreeBind (agreeEach (fun element registry => agreeTrailing ?_) _ _)
      (agreeEach (fun presentation registry => agreeTrailing ?_) _ _)))
  · simp only [writeIaSequenceHeader, writeBytesNil, bind_assoc, pure_bind]
  · simp only [writeCodecConfig, writeBytesNil, bind_assoc, pure_bind]
  · simp only [writeAudioElement, writeBytesNil, bind_assoc, pure_bind]
  · simp only [writeMixPresentation, writeBytesNil, bind_assoc, pure_bind]
    rfl

end Iamf.Wire
