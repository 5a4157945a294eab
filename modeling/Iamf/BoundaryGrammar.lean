import Iamf.Leb128Field
import Iamf.ObuBoundaries

/-! The framing grammar in bytes: what the walk accepts, and where it says that it stopped. -/
namespace Iamf.Wire
open Bits BitString TapeCodec ReadTape

inductive IsFrame : Bytes → Prop where
  | intro (first : UInt8) (size : Bytes) (v : Nat) (span : Bytes) (uleb : UlebBytes size v) (short : size.length ≤ 8)
      (ceiling : v ≤ 2 ^ 21 - 1 - size.length) (length : span.length = v) : IsFrame (first :: (size ++ span))

theorem frameFramed {frame : Bytes} (isFrame : IsFrame frame) : Framed (bytesBits frame) frame.length := by
  cases isFrame with
  | intro first size v span uleb short ceiling length =>
    obtain ⟨positive, fits, bits⟩ := ulebBytesBits uleb
    have value : (UInt32.ofNat v).toNat = v := by rw [UInt32.toNat_ofNat', Nat.mod_eq_of_lt (by omega)]
    have framed := Framed.intro (byteBits first) size.length (UInt32.ofNat v) span (byteBitsLength first) positive
      short (by rwa [value]) (by rw [value, entireObuSizeMax]; omega) (by rw [value, length])
    rw [value, ← bits, ← bytesBitsAppend, ← bytesBitsCons] at framed
    rwa [List.length_cons, List.length_append, length, Nat.add_comm _ 1, ← Nat.add_assoc]

theorem framedFrame {bytes : Bytes} {frame tail : List Bool} {size : Nat} (framed : Framed frame size)
    (split : bytesBits bytes = frame ++ tail) :
    ∃ front behind : Bytes, bytes = front ++ behind ∧ IsFrame front ∧ front.length = size := by
  cases framed with
  | intro first n obuSize span octet positive enough fits bounded length =>
    obtain ⟨sizeBytes, sizeLength, uleb⟩ := ulebBytesOf positive fits
    obtain ⟨byte, byteIs⟩ : ∃ byte : UInt8, byteBits byte = first := by
      have packed := packBitsExact 1 first octet
      simp only [packBits, bytesBitsCons, bytesBitsNil, List.append_nil] at packed
      exact ⟨_, packed⟩
    have bits := (ulebBytesBits uleb).2.2
    rw [sizeLength] at bits
    have whole : bytesBits bytes = bytesBits (byte :: (sizeBytes ++ span)) ++ tail := by
      rw [bytesBitsCons, bytesBitsAppend, byteIs, bits, split]
    have total := congrArg List.length whole
    rw [List.length_append, bytesBitsLength, bytesBitsLength] at total
    have count : (byte :: (sizeBytes ++ span)).length = 1 + n + obuSize.toNat := by
      rw [List.length_cons, List.length_append, sizeLength, length]; omega
    rw [← List.take_append_drop (byte :: (sizeBytes ++ span)).length bytes, bytesBitsAppend] at whole
    obtain ⟨front, _⟩ := bytesBitsCancel (by rw [List.length_take]; omega) whole
    refine ⟨byte :: (sizeBytes ++ span), bytes.drop (byte :: (sizeBytes ++ span)).length, ?_, ?_, count⟩
    · conv_lhs => rw [← List.take_append_drop (byte :: (sizeBytes ++ span)).length bytes, front]
    · refine .intro byte sizeBytes _ span uleb (by rw [sizeLength]; exact enough) ?_ length
      rw [sizeLength]
      simp only [entireObuSizeMax] at bounded
      omega

theorem obuEndFrame {bytes : Bytes} {position next : Nat} : obuEnd bytes position = .ok next ↔
    ∃ frame tail, bytes.drop position = frame ++ tail ∧ IsFrame frame ∧ next = position + frame.length := by
  rw [obuEndOk]
  constructor
  · rintro ⟨frame, tail, size, split, framed, rfl⟩
    obtain ⟨front, behind, whole, isFrame, length⟩ := framedFrame framed split
    exact ⟨front, behind, whole, isFrame, by rw [length]⟩
  · rintro ⟨frame, tail, split, isFrame, rfl⟩
    exact ⟨bytesBits frame, bytesBits tail, _, by rw [split, bytesBitsAppend], frameFramed isFrame, rfl⟩

theorem frameLong {frame : Bytes} (isFrame : IsFrame frame) : 2 ≤ frame.length :=
  (framedLength (frameFramed isFrame)).2.1

def frameStarts : Nat → List Bytes → List Nat
  | position, [] => [position]
  | position, frame :: frames => position :: frameStarts (position + frame.length) frames

theorem dropBehind {bytes frame tail : Bytes} {position : Nat} (split : bytes.drop position = frame ++ tail) :
    bytes.drop (position + frame.length) = tail := by
  rw [← List.drop_drop, split, List.drop_left]

theorem boundariesFrames {bytes : Bytes} {position : Nat} {boundaries : List Nat} :
    findObuBoundariesFrom bytes position = .ok boundaries ↔ ∃ frames : List Bytes, (∀ frame ∈ frames, IsFrame frame) ∧
      frames.flatten = bytes.drop position ∧ boundaries = frameStarts position frames := by
  constructor
  · induction position using findObuBoundariesFrom.induct bytes generalizing boundaries with
    | case1 position inside e step =>
      intro ok
      rw [findObuBoundariesFrom, dif_pos inside] at ok
      split at ok
      · cases ok
      · rename_i next again
        cases again.symm.trans step
    | case2 position inside next step ih =>
      intro ok
      rw [boundariesStep inside step] at ok
      obtain ⟨frame, tail, split, isFrame, rfl⟩ := obuEndFrame.mp step
      cases later : findObuBoundariesFrom bytes (position + frame.length) with
      | error e => rw [later] at ok; cases ok
      | ok found =>
        rw [later] at ok
        cases ok
        obtain ⟨frames, each, flat, rfl⟩ := ih later
        refine ⟨frame :: frames, List.forall_mem_cons.mpr ⟨isFrame, each⟩, ?_, rfl⟩
        rw [List.flatten_cons, flat, split, dropBehind split]
    | case3 position outside =>
      intro ok
      rw [boundariesEnd (by omega)] at ok
      cases ok
      refine ⟨[], by simp, ?_, rfl⟩
      rw [List.flatten_nil, List.drop_of_length_le (by omega)]
  · rintro ⟨frames, each, flat, rfl⟩
    induction frames generalizing position with
    | nil =>
      have behind := List.drop_eq_nil_iff.mp flat.symm
      exact boundariesEnd behind
    | cons frame frames ih =>
      obtain ⟨isFrame, others⟩ := List.forall_mem_cons.mp each
      have split : bytes.drop position = frame ++ frames.flatten := flat.symm
      have inside : position < bytes.length := by
        have total := congrArg List.length split
        have long := frameLong isFrame
        rw [List.length_drop, List.length_append] at total
        omega
      rw [boundariesStep inside (obuEndFrame.mpr ⟨frame, _, split, isFrame, rfl⟩),
        ih others (dropBehind split).symm]
      rfl

def Stuck (bytes : Bytes) (q : Nat) : Prop :=
  ∃ (frames : List Bytes) (left : Bytes), (∀ frame ∈ frames, IsFrame frame) ∧ bytes = frames.flatten ++ left ∧
    q = frames.flatten.length ∧ left ≠ [] ∧ ∀ frame tail, left = frame ++ tail → ¬ IsFrame frame

theorem walksFrames {bytes : Bytes} {position last : Nat} (walks : Walks bytes position last) :
    ∃ frames : List Bytes, (∀ frame ∈ frames, IsFrame frame) ∧
      bytes.drop position = frames.flatten ++ bytes.drop last ∧ last = position + frames.flatten.length := by
  induction walks with
  | refl => exact ⟨[], by simp, by simp, by simp⟩
  | step inside first _ ih =>
    obtain ⟨frame, tail, split, isFrame, rfl⟩ := obuEndFrame.mp first
    obtain ⟨frames, each, flat, length⟩ := ih
    refine ⟨frame :: frames, List.forall_mem_cons.mpr ⟨isFrame, each⟩, ?_, ?_⟩
    · rw [List.flatten_cons, List.append_assoc, ← flat, dropBehind split, split]
    · rw [List.flatten_cons, List.length_append, length, Nat.add_assoc]

theorem framesWalk {bytes left : Bytes} {position : Nat} {frames : List Bytes} (each : ∀ frame ∈ frames, IsFrame frame)
    (split : bytes.drop position = frames.flatten ++ left) : Walks bytes position (position + frames.flatten.length) := by
  induction frames generalizing position with
  | nil => exact .refl
  | cons frame frames ih =>
    obtain ⟨isFrame, others⟩ := List.forall_mem_cons.mp each
    rw [List.flatten_cons, List.append_assoc] at split
    have inside : position < bytes.length := by
      have total := congrArg List.length split
      have long := frameLong isFrame
      rw [List.length_drop, List.length_append] at total
      omega
    refine .step inside (obuEndFrame.mpr ⟨frame, _, split, isFrame, rfl⟩) ?_
    rw [List.flatten_cons, List.length_append, ← Nat.add_assoc]
    exact ih others (dropBehind split)

theorem stuckIff {bytes : Bytes} {q : Nat} : Stuck bytes q ↔ ∃ e, WalkFails bytes 0 q e := by
  constructor
  · rintro ⟨frames, left, each, rfl, rfl, more, none'⟩
    have walks : Walks (frames.flatten ++ left) 0 (0 + frames.flatten.length) := framesWalk each rfl
    rw [Nat.zero_add] at walks
    have inside : frames.flatten.length < (frames.flatten ++ left).length := by
      have := List.length_pos_iff.mpr more
      rw [List.length_append]
      omega
    cases step : obuEnd (frames.flatten ++ left) frames.flatten.length with
    | error e => exact ⟨e, walks, inside, step⟩
    | ok next =>
      obtain ⟨frame, tail, split, isFrame, _⟩ := obuEndFrame.mp step
      rw [List.drop_left] at split
      exact absurd isFrame (none' frame tail split)
  · rintro ⟨e, walks, inside, fails⟩
    obtain ⟨frames, each, flat, length⟩ := walksFrames walks
    rw [Nat.zero_add] at length
    refine ⟨frames, bytes.drop q, each, flat, length, ?_, fun frame tail split isFrame => ?_⟩
    · exact fun empty => absurd (List.drop_eq_nil_iff.mp empty) (by omega)
    · cases fails.symm.trans (obuEndFrame.mpr ⟨frame, tail, split, isFrame, rfl⟩)

theorem walkFailsOnce {bytes : Bytes} {position q q' : Nat} {e e' : Error} (fails : WalkFails bytes position q e)
    (fails' : WalkFails bytes position q' e') : q = q' ∧ e = e' := by
  obtain ⟨walks, inside, step⟩ := fails
  induction walks with
  | refl =>
    obtain ⟨walks', inside', step'⟩ := fails'
    cases walks' with
    | refl => exact ⟨rfl, Except.error.inj (step.symm.trans step')⟩
    | step _ first _ => cases step.symm.trans first
  | step _ first _ ih =>
    refine ih ?_ inside step
    obtain ⟨walks', inside', step'⟩ := fails'
    cases walks' with
    | refl => cases first.symm.trans step'
    | step _ first' tail =>
      cases first.symm.trans first'
      exact ⟨tail, inside', step'⟩

/-- A size field that no reader takes: eight bytes that all ask for another one, or a value
beyond 32 bits. -/
def SizeBroken (bytes : Bytes) : Prop :=
  (∃ front tail, bytes = front ++ tail ∧ front.length = 8 ∧ Continued front) ∨
    ∃ size v tail, bytes = size ++ tail ∧ UlebBytes size v ∧ size.length ≤ 8 ∧ u32Max < v

theorem firstByteSkipped {bytes more : Bytes} {position : Nat} {first : UInt8} (split : bytes.drop position = first :: more) :
    ∃ behind : BitCursor, readUnsigned 8 (BitCursor.new (bytes.drop position)) = .ok first.toNat behind ∧
      rest behind = bytesBits more ∧ behind.bytePos = 1 ∧ behind.bitOff = 0 := by
  have whole : rest (BitCursor.new (bytes.drop position)) = bytesBits (first :: more) ++ [] := by
    rw [restOfDrop, split, List.append_nil]
  obtain ⟨read, behind⟩ := readByteOk whole
  rw [List.append_nil] at behind
  have moved := advanceAligned (c := BitCursor.new (bytes.drop position)) (k := 1) rfl (by rw [whole]; simp)
  exact ⟨_, read, behind, moved.1.trans (Nat.zero_add 1), moved.2⟩

theorem obuEndBroken {bytes more : Bytes} {position : Nat} {first : UInt8} (split : bytes.drop position = first :: more)
    (broken : SizeBroken more) : ∃ e, obuEnd bytes position = .error e ∧ e.location = .inputOffset 1 := by
  obtain ⟨behind, read, left, one, _⟩ := firstByteSkipped split
  have stops {kind : ErrorKind} {s : BitCursor} (other : kind ≠ .unexpectedEndOfInput)
      (size : readUleb128 behind = .error (inputError kind behind.bytePosition) s) :
      obuEnd bytes position = .error (inputError kind 1) := by
    unfold obuEnd
    simp only [read, size]
    rw [if_neg (show ¬ (inputError kind behind.bytePosition).kind = _ from other),
      show behind.bytePosition = 1 from one]
  rcases broken with ⟨front, tail, rfl, length, continued⟩ | ⟨size, v, tail, rfl, uleb, short, large⟩
  · obtain ⟨s, failed⟩ := ulebTooLong length continued (left.trans (bytesBitsAppend front tail))
    exact ⟨_, stops (by simp) failed, rfl⟩
  · obtain ⟨s, failed⟩ := ulebTooLarge uleb short large (left.trans (bytesBitsAppend size tail))
    exact ⟨_, stops (by simp) failed, rfl⟩

theorem obuEndLocated {bytes more : Bytes} {position : Nat} {first : UInt8} {e : Error}
    (split : bytes.drop position = first :: more) (sound : ¬ SizeBroken more) (failed : obuEnd bytes position = .error e) :
    e.location = .inputOffset position := by
  obtain ⟨behind, read, left, one, aligned⟩ := firstByteSkipped split
  unfold obuEnd at failed
  simp only [read] at failed
  rcases ulebBytesCases 8 more with ⟨size, v, tail, rfl, uleb, short⟩ | ⟨front, tail, rfl, length, continued⟩ |
    ⟨short, continued⟩
  · have small : v ≤ u32Max := Nat.not_lt.mp fun large => sound (.inr ⟨size, v, tail, rfl, uleb, short, large⟩)
    rw [ulebOk uleb short small (left.trans (bytesBitsAppend size tail))] at failed
    simp only at failed
    split at failed
    · cases failed; rfl
    cases checked : validateObuSize (UInt32.ofNat v)
        (BitCursor.bytePosition (advance (8 * size.length) behind) - 1) (.inputOffset position) with
    | error e' =>
      rw [checked] at failed
      cases failed
      unfold validateObuSize at checked
      split_ifs at checked <;> cases checked <;> rfl
    | ok _ =>
      rw [exceptBindOf _ checked] at failed
      split at failed
      · cases failed; rfl
      · cases failed
  · exact absurd (.inl ⟨front, tail, rfl, length, continued⟩) sound
  · obtain ⟨e', s, size, kind⟩ := ulebEnd continued short left
    simp only [size, kind, if_pos] at failed
    cases failed
    rfl

/-- The walk accepts the framing grammar and nothing else, gives every start and the end, and
otherwise points between the first piece that is no frame and the end of the input. -/
structure BoundariesLocated (bytes : Bytes) : Prop where
  accepts : ∀ boundaries, findObuBoundaries bytes = .ok boundaries ↔ ∃ frames : List Bytes,
    (∀ frame ∈ frames, IsFrame frame) ∧ frames.flatten = bytes ∧ boundaries = frameStarts 0 frames
  locates : ∀ e, findObuBoundaries bytes = .error e →
    ∃ q o, Stuck bytes q ∧ e.location = .inputOffset o ∧ q ≤ o ∧ o ≤ bytes.length

theorem walkFailsSplit {bytes : Bytes} {q : Nat} {e : Error} (fails : WalkFails bytes 0 q e) :
    ∃ first, bytes.drop q = first :: bytes.drop (q + 1) :=
  ⟨_, List.drop_eq_getElem_cons fails.inside⟩

/-- The walk does what its grammar says on every input but those where a frame stands in front
of the first broken size field: there the offset counts from the OBU, not from the input. -/
theorem boundariesLocated (bytes : Bytes) : BoundariesLocated bytes ↔
    ¬ ∃ q, 0 < q ∧ Stuck bytes q ∧ SizeBroken (bytes.drop (q + 1)) := by
  constructor
  · rintro ⟨_, locates⟩ ⟨q, positive, stuck, broken⟩
    obtain ⟨e, fails⟩ := stuckIff.mp stuck
    obtain ⟨first, split⟩ := walkFailsSplit fails
    obtain ⟨e', step, location⟩ := obuEndBroken split broken
    cases fails.fails.symm.trans step
    obtain ⟨q', o, stuck', there, before, _⟩ := locates e (boundariesFail.mpr ⟨q, fails⟩)
    obtain ⟨e'', fails'⟩ := stuckIff.mp stuck'
    cases (walkFailsOnce fails fails').1
    cases location.symm.trans there
    -- a frame is at least two bytes long
    have long : q = 0 ∨ 2 ≤ q := by
      cases fails.walks with
      | refl => exact .inl rfl
      | step _ first tail =>
        have := obuEndBehind first
        have := walksLe tail
        omega
    omega
  · intro sound
    refine ⟨fun boundaries => boundariesFrames, fun e failed => ?_⟩
    obtain ⟨q, fails⟩ := boundariesFail.mp failed
    obtain ⟨first, split⟩ := walkFailsSplit fails
    have stuck := stuckIff.mpr ⟨e, fails⟩
    have inside := fails.inside
    by_cases broken : SizeBroken (bytes.drop (q + 1))
    · have start : q = 0 := Nat.eq_zero_of_not_pos fun positive => sound ⟨q, positive, stuck, broken⟩
      obtain ⟨e', step, location⟩ := obuEndBroken split broken
      cases fails.fails.symm.trans step
      exact ⟨q, 1, stuck, location, by omega, by omega⟩
    · exact ⟨q, q, stuck, obuEndLocated split broken fails.fails, Nat.le_refl q, by omega⟩

def brokenBehindFrame : Bytes := [0x20, 0, 0x20, 0x80, 0x80, 0x80, 0x80, 0x80, 0x80, 0x80, 0x80]

theorem brokenFieldMisplaced : ¬ BoundariesLocated brokenBehindFrame ∧ Stuck brokenBehindFrame 2 ∧
    findObuBoundaries brokenBehindFrame = .error ⟨.leb128TooLong, .inputOffset 1⟩ := by
  have empty : IsFrame [0x20, 0] := .intro 0x20 [0] 0 [] (.last 0 (by decide)) (by decide) (by decide) rfl
  have walks : Walks brokenBehindFrame 0 2 := by
    have split : brokenBehindFrame.drop 0 = [[0x20, 0]].flatten ++ brokenBehindFrame.drop 2 := rfl
    exact framesWalk (List.forall_mem_cons.mpr ⟨empty, by simp⟩) split
  have fails : WalkFails brokenBehindFrame 0 2 ⟨.leb128TooLong, .inputOffset 1⟩ :=
    ⟨walks, by decide, by decide +kernel⟩
  have stuck := stuckIff.mpr ⟨_, fails⟩
  have failed : findObuBoundaries brokenBehindFrame = _ := boundariesFail.mpr ⟨2, fails⟩
  refine ⟨fun located => ?_, stuck, failed⟩
  obtain ⟨q, o, stuck', there, before, _⟩ := located.locates _ failed
  obtain ⟨e, fails'⟩ := stuckIff.mp stuck'
  cases (walkFailsOnce fails fails').1
  cases there
  omega

end Iamf.Wire
