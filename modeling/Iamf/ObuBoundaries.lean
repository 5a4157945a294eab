import Iamf.ObuFrame

/-! The structural walk over a byte stream: the first byte and `obu_size` of every OBU, and
nothing that the flags say about what lies behind them. -/
namespace Iamf.Wire
open Bits BitString TapeCodec ReadTape

def truncated (position : Nat) : Error := inputError .truncatedObu position

def obuEnd (bytes : Bytes) (position : Nat) : Except Error Nat :=
  match readUnsigned 8 (BitCursor.new (bytes.drop position)) with
  | .error _ _ => .error (truncated position)
  | .ok _ behind =>
    match readUleb128 behind with
    | .error e _ => .error (if e.kind = .unexpectedEndOfInput then truncated position else e)
    | .ok obuSize cursor =>
      let sizeOfObuSize := cursor.bytePosition - 1
      if cursor.bytePosition < 1 then .error (truncated position)
      else do
        validateObuSize obuSize sizeOfObuSize (.inputOffset position)
        let next := position + 1 + sizeOfObuSize + obuSize.toNat
        if bytes.length < next then .error (truncated position) else .ok next

inductive Framed : List Bool → Nat → Prop where
  | intro (first : List Bool) (n : Nat) (obuSize : UInt32) (span : Bytes) (octet : first.length = 8)
      (positive : 1 ≤ n) (enough : n ≤ maxLeb128Size) (fits : obuSize.toNat < 2 ^ (7 * n))
      (bounded : obuSize.toNat + n + 1 ≤ entireObuSizeMax) (length : span.length = obuSize.toNat) :
      Framed (first ++ (ulebBits n obuSize.toNat ++ bytesBits span)) (1 + n + obuSize.toNat)

theorem framedLength {frame : List Bool} {size : Nat} (framed : Framed frame size) :
    frame.length = 8 * size ∧ 2 ≤ size ∧ size ≤ entireObuSizeMax := by
  cases framed with
  | intro first n obuSize span octet positive enough fits bounded length =>
    simp only [List.length_append, octet, ulebBitsLength, bytesBitsLength, length]
    omega

theorem framedOfSource [UlebForm] {frame : List Bool} {header : ObuHeader} {payload : Bytes}
    (source : FrameSource frame header payload) : ∃ size, Framed frame size := by
  cases source with
  | intro raw redundant trimmed extended n obuSize span typeSpecific extension behind fiveBits positive enough
      fits form bounded length fields =>
    exact ⟨_, .intro _ n obuSize span (by simp [firstByteBits]) positive enough fits bounded length⟩

theorem restOfDrop (bytes : Bytes) (position : Nat) :
    rest (BitCursor.new (bytes.drop position)) = bytesBits (bytes.drop position) := rfl

theorem obuEndOk {bytes : Bytes} {position next : Nat} : obuEnd bytes position = .ok next ↔
    ∃ frame tail size, bytesBits (bytes.drop position) = frame ++ tail ∧ Framed frame size ∧
      next = position + size := by
  constructor
  · intro ok
    unfold obuEnd at ok
    split at ok
    · cases ok
    rename_i value behind first
    obtain ⟨bs, tail1, split1, moved1, _, _, bits⟩ := consumesUnsigned 8 _ _ _ first
    have octet : bs.length = 8 := by rw [bits]; simp
    rw [restOfDrop] at split1
    split at ok
    · cases ok
    rename_i obuSize cursor size
    obtain ⟨cs, tail2, split2, moved2, n, positive, enough, fits, uleb, _⟩ := consumesUlebBits _ _ _ size
    subst uleb
    have inside1 : bs.length ≤ (rest (BitCursor.new (bytes.drop position))).length := by
      rw [restOfDrop, split1, List.length_append]; omega
    have behind1 := restAdvance _ _ inside1
    rw [← moved1, restOfDrop, split1, List.drop_left] at behind1
    subst behind1
    have start : behind.bytePos = 1 ∧ behind.bitOff = 0 := by
      have moved := advanceAligned (c := BitCursor.new (bytes.drop position)) (k := 1) rfl (by omega)
      rw [moved1, octet]
      exact ⟨by rw [moved.1]; exact Nat.zero_add 1, moved.2⟩
    have stop : cursor.bytePosition = 1 + n := by
      rw [ulebBitsLength] at moved2
      have moved := (advanceAligned (k := n) start.2 (by rw [split2]; simp)).1
      rw [← moved2, start.1] at moved
      exact moved
    simp only [stop, Nat.add_sub_cancel_left] at ok
    rw [if_neg (by omega)] at ok
    obtain ⟨_, checked, ok⟩ := exceptBindOk ok
    have bounded := (validateObuSizeOk _ enough).mp checked
    split at ok
    · cases ok
    rename_i inside
    cases ok
    have total := congrArg List.length split1
    rw [split2, bytesBitsLength, List.length_append, List.length_append, octet, ulebBitsLength,
      List.length_drop] at total
    obtain ⟨span, tail, length, rfl⟩ : ∃ span tail, span.length = obuSize.toNat ∧ tail2 = bytesBits span ++ tail := by
      refine ⟨(bytes.drop (position + 1 + n)).take obuSize.toNat,
        bytesBits ((bytes.drop (position + 1 + n)).drop obuSize.toNat), ?_, ?_⟩
      · rw [List.length_take, List.length_drop]; omega
      · rw [← bytesBitsAppend, List.take_append_drop]
        have skipped : (bytesBits (bytes.drop position)).drop (8 * (1 + n)) = tail2 := by
          rw [split1, split2, ← List.append_assoc, List.drop_left' (by simp [octet]; omega)]
        rw [← skipped, bytesBitsDrop, List.drop_drop, Nat.add_assoc]
    refine ⟨_, tail, _, ?_, .intro bs n obuSize span octet positive enough fits bounded length, by omega⟩
    rw [split1, split2]
    simp only [List.append_assoc]
  · rintro ⟨frame, tail, size, split, framed, rfl⟩
    have room := (framedLength framed).1
    have total := congrArg List.length split
    rw [bytesBitsLength, List.length_append, List.length_drop] at total
    cases framed with
    | intro first n obuSize span octet positive enough fits bounded length =>
    rw [List.append_assoc] at split
    have head := readsUnsigned 0 (n := 8) (v := valueOf first) (by omega)
      (by have := valueOfLt first; rw [octet] at this; exact this)
    rw [← bitsOfUnique octet] at head
    have first' := head (BitCursor.new (bytes.drop position)) _ (phaseIsBitOff _) (by rw [restOfDrop]; exact split)
    rw [octet] at first'
    have split1 : rest (advance 8 (BitCursor.new (bytes.drop position))) =
        ulebBits n obuSize.toNat ++ (bytesBits span ++ tail) := by
      rw [restAdvance _ _ (by rw [restOfDrop, split]; simp; omega), restOfDrop, split, List.drop_left' octet]
      simp
    have moved1 := advanceAligned (c := BitCursor.new (bytes.drop position)) (k := 1) rfl
      (by rw [restOfDrop, split]; simp; omega)
    have uleb := readsUleb128 0 positive enough fits rfl _ _ (by rw [phaseIsBitOff]; exact moved1.2) split1
    have moved2 := (advanceAligned (k := n) moved1.2 (by rw [split1]; simp)).1
    rw [ulebBitsLength] at uleb
    have stop : (advance (8 * n) (advance 8 (BitCursor.new (bytes.drop position)))).bytePosition = 1 + n := by
      change BitCursor.bytePos _ = _
      rw [moved2, moved1.1]
      exact congrArg (· + n) (Nat.zero_add 1)
    have checked := (validateObuSizeOk (.inputOffset position) enough).mpr bounded
    unfold obuEnd
    simp only [first', uleb, stop, Nat.add_sub_cancel_left]
    rw [if_neg (by omega), exceptBindOf _ checked, if_neg (by omega)]
    exact congrArg Except.ok (by omega)

theorem obuEndBehind {bytes : Bytes} {position next : Nat} (ok : obuEnd bytes position = .ok next) :
    position + 2 ≤ next ∧ next ≤ position + entireObuSizeMax := by
  obtain ⟨frame, tail, size, _, framed, rfl⟩ := obuEndOk.mp ok
  have := framedLength framed
  omega

theorem obuEndLater {bytes : Bytes} {position next : Nat} (inside : position < bytes.length)
    (ok : obuEnd bytes position = .ok next) : bytes.length - next < bytes.length - position := by
  have := obuEndBehind ok
  omega

def findObuBoundariesFrom (bytes : Bytes) (position : Nat) : Except Error (List Nat) :=
  if _inside : position < bytes.length then
    match _step : obuEnd bytes position with
    | .error e => .error e
    | .ok next => (findObuBoundariesFrom bytes next).map (position :: ·)
  else .ok [position]
termination_by bytes.length - position
decreasing_by exact obuEndLater _inside _step

def findObuBoundaries (bytes : Bytes) : Except Error (List Nat) := findObuBoundariesFrom bytes 0

theorem boundariesStep {bytes : Bytes} {position next : Nat} (inside : position < bytes.length)
    (ok : obuEnd bytes position = .ok next) :
    findObuBoundariesFrom bytes position = (findObuBoundariesFrom bytes next).map (position :: ·) := by
  rw [findObuBoundariesFrom, dif_pos inside]
  split
  · rename_i e failed
    cases failed.symm.trans ok
  · rename_i found step
    cases step.symm.trans ok
    rfl

theorem boundariesEnd {bytes : Bytes} {position : Nat} (behind : bytes.length ≤ position) :
    findObuBoundariesFrom bytes position = .ok [position] := by
  rw [findObuBoundariesFrom, dif_neg (by omega)]

inductive Walks (bytes : Bytes) : Nat → Nat → Prop where
  | refl {position} : Walks bytes position position
  | step {position next last} (inside : position < bytes.length) (first : obuEnd bytes position = .ok next)
      (tail : Walks bytes next last) : Walks bytes position last

theorem walksLe {bytes : Bytes} {position last : Nat} (walks : Walks bytes position last) : position ≤ last := by
  induction walks with
  | refl => exact Nat.le_refl _
  | step _ first _ ih =>
    have := obuEndBehind first
    omega

structure WalkFails (bytes : Bytes) (position last : Nat) (e : Error) : Prop where
  walks : Walks bytes position last
  inside : last < bytes.length
  fails : obuEnd bytes last = .error e

theorem boundariesFail {bytes : Bytes} {position : Nat} {e : Error} :
    findObuBoundariesFrom bytes position = .error e ↔ ∃ last, WalkFails bytes position last e := by
  constructor
  · induction position using findObuBoundariesFrom.induct bytes with
    | case1 position inside e' step =>
      intro failed
      rw [findObuBoundariesFrom, dif_pos inside] at failed
      split at failed
      · rename_i found again
        cases failed
        exact ⟨position, .refl, inside, again⟩
      · rename_i found again
        cases again.symm.trans step
    | case2 position inside next step ih =>
      intro failed
      rw [boundariesStep inside step] at failed
      cases later : findObuBoundariesFrom bytes next with
      | ok found =>
        rw [later] at failed
        cases failed
      | error e' =>
        rw [later] at failed
        cases failed
        obtain ⟨last, walks, before, fails⟩ := ih later
        exact ⟨last, .step inside step walks, before, fails⟩
    | case3 position outside =>
      intro failed
      rw [boundariesEnd (by omega)] at failed
      cases failed
  · rintro ⟨last, walks, before, fails⟩
    induction walks with
    | refl =>
      rw [findObuBoundariesFrom, dif_pos before]
      split
      · rename_i found step
        cases fails.symm.trans step
        rfl
      · rename_i found step
        cases fails.symm.trans step
    | step inside first _ ih =>
      rw [boundariesStep inside first, ih before fails]
      rfl

theorem walksMem {bytes : Bytes} {position last : Nat} {boundaries : List Nat} (walks : Walks bytes position last)
    (ok : findObuBoundariesFrom bytes position = .ok boundaries) : last ∈ boundaries := by
  induction walks generalizing boundaries with
  | @refl position =>
    rw [findObuBoundariesFrom] at ok
    split at ok
    · split at ok
      · cases ok
      rename_i next step
      cases later : findObuBoundariesFrom bytes next with
      | error e => rw [later] at ok; cases ok
      | ok found =>
        rw [later] at ok
        cases ok
        exact List.mem_cons_self
    · cases ok
      exact List.mem_singleton.mpr rfl
  | @step position next last inside first _ ih =>
    rw [boundariesStep inside first] at ok
    cases later : findObuBoundariesFrom bytes next with
    | error e => rw [later] at ok; cases ok
    | ok found =>
      rw [later] at ok
      cases ok
      exact List.mem_cons_of_mem _ (ih later)

end Iamf.Wire
