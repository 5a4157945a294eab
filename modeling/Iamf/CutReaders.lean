import Iamf.Leb128

/-! Readers over input that ends too early. Where the whole input would have been read, the cut one
gives the same value or runs out: no other error tells of missing bytes. -/
namespace Iamf.Bits
open BitString TapeCodec ReadTape

structure Cut (c c' : BitCursor) : Prop where
  data : c'.data <+: c.data
  bytePos : c'.bytePos = c.bytePos
  bitOff : c'.bitOff = c.bitOff

inductive CutShort {T : Type} (v : T) (d : BitCursor) : EStateM.Result Error BitCursor T → Prop where
  | same {d'} (cut : Cut d d') : CutShort v d (.ok v d')
  | ended {e d'} (kind : e.kind = .unexpectedEndOfInput) : CutShort v d (.error e d')

def Truncates {T : Type} (f : Reader T) : Prop := ∀ c c' v d, Cut c c' → f c = .ok v d → CutShort v d (f c')

section

variable {T U : Type} {c c' : BitCursor}

theorem cutNew {bytes front : Bytes} (early : front <+: bytes) : Cut (.new bytes) (.new front) := ⟨early, rfl, rfl⟩

theorem cutRemaining (cut : Cut c c') : c'.bytesRemaining ≤ c.bytesRemaining := by
  have shorter := cut.data.length_le
  unfold BitCursor.bytesRemaining BitCursor.bitsRemaining
  rw [cut.bytePos, cut.bitOff]
  omega

theorem cutSlice (cut : Cut c c') {n : Nat} (inside : n ≤ c'.bytesRemaining) (aligned : c'.bitOff = 0) :
    (c'.data.drop c'.bytePos).take n = (c.data.drop c.bytePos).take n := by
  obtain ⟨missing, whole⟩ := cut.data
  have size : n ≤ (c'.data.drop c'.bytePos).length := by
    unfold BitCursor.bytesRemaining BitCursor.bitsRemaining at inside
    rw [List.length_drop]
    omega
  have inData := c'.inData
  rw [← whole, ← cut.bytePos, List.drop_append_of_le_length (by omega), List.take_append_of_le_length size]

theorem truncatesPure (v : T) : Truncates (pure v : Reader T) := by
  intro c c' w d cut ok
  cases ok
  exact .same cut

theorem truncatesThrow (e : Error) : Truncates (throw e : Reader T) := fun _ _ _ _ _ ok => by cases ok

theorem truncatesBind {f : Reader T} {k : T → Reader U} (first : Truncates f) (next : ∀ v, Truncates (k v)) :
    Truncates (f >>= k) := by
  intro c c' w d cut ok
  obtain ⟨v, mid, head, tail⟩ := bindOk ok
  have early := first c c' v mid cut head
  generalize ran : f c' = r at early
  cases early with
  | same cut' =>
    rw [bindOf _ ran]
    exact next v mid _ w d cut' tail
  | ended kind =>
    rw [bindError _ ran]
    exact .ended kind

theorem truncatesOrThrow (x : Except Error T) : Truncates (orThrow x : Reader T) := by
  intro c c' v d cut ok
  obtain ⟨given, same⟩ := orThrowOk ok
  subst given same
  exact .same cut

theorem truncatesEnsure (p : Bool) (e : Error) : Truncates (ensure p e : Reader Unit) := by
  cases p with
  | true => exact truncatesPure ()
  | false => exact truncatesThrow e

theorem truncatesPosition : Truncates bytePosition := by
  intro c c' v d cut ok
  cases ok
  rw [bytePositionOk, cut.bytePos]
  exact .same cut

theorem cutAdvance (cut : Cut c c') (inside : c.bytePos < c.data.length) (inside' : c'.bytePos < c'.data.length) :
    Cut (c.advanceOneBit inside) (c'.advanceOneBit inside') := by
  obtain ⟨data, bytePos, bitOff⟩ := cut
  unfold BitCursor.advanceOneBit
  simp only [bitOff]
  split_ifs
  · exact ⟨data, congrArg (· + 1) bytePos, rfl⟩
  · exact ⟨data, bytePos, rfl⟩

theorem truncatesBit : Truncates readBit := by
  intro c c' v d cut ok
  unfold readBit at ok
  split at ok
  · cases ok
  rename_i byte found
  cases ok
  unfold readBit
  split
  · exact .ended rfl
  rename_i byte' found'
  have same : byte' = byte := by
    obtain ⟨missing, whole⟩ := cut.data
    have inside := (List.getElem?_eq_some_iff.mp found').1
    rw [← whole, ← cut.bytePos, List.getElem?_append_left inside, found'] at found
    exact Option.some.inj found
  subst same
  rw [cut.bitOff]
  exact .same (cutAdvance cut _ _)

theorem truncatesBits (n acc : Nat) : Truncates (readBits n acc) := by
  induction n generalizing acc with
  | zero => exact truncatesPure acc
  | succ n ih => exact truncatesBind truncatesBit fun bit => ih _

theorem truncatesUnsigned (bits : Nat) : Truncates (readUnsigned bits) := by
  intro c c' v d cut ok
  unfold readUnsigned at ok ⊢
  split_ifs at ok with wide short
  rw [if_neg wide]
  split_ifs
  · exact .ended rfl
  · exact truncatesBits bits 0 c c' v d cut ok

theorem truncatesBool : Truncates readBool := truncatesBind (truncatesUnsigned 1) fun _ => truncatesPure _

theorem truncatesU8 (bits : Nat) : Truncates (readU8 bits) := truncatesBind (truncatesUnsigned bits) fun _ => truncatesPure _

theorem truncatesSpan (n : Nat) : Truncates (readUint8Span n) := by
  intro c c' v d cut ok
  unfold readUint8Span at ok ⊢
  simp only [] at ok ⊢
  split_ifs at ok with unaligned short
  cases ok
  have aligned : c'.isByteAligned = c.isByteAligned := by
    unfold BitCursor.isByteAligned
    rw [cut.bitOff]
  rw [aligned, if_neg unaligned]
  split_ifs with early
  · exact .ended rfl
  · rw [cutSlice cut (Nat.le_of_not_lt early)]
    · exact .same ⟨cut.data, congrArg (· + n) cut.bytePos, cut.bitOff⟩
    · rw [Bool.not_eq_false] at unaligned
      rw [cut.bitOff]
      exact beq_iff_eq.mp unaligned

theorem truncatesGroups [UlebForm] (start left acc shift : Nat) : Truncates (readGroups start left acc shift) := by
  induction left generalizing acc shift with
  | zero => exact truncatesThrow _
  | succ left ih =>
    refine truncatesBind (truncatesUnsigned 8) fun byte => ?_
    simp only []
    split_ifs
    · exact truncatesBind (truncatesEnsure _ _) fun _ => truncatesBind (truncatesEnsure _ _) fun _ => truncatesPure _
    · exact ih _ _

theorem truncatesUleb128 [UlebForm] : Truncates readUleb128 :=
  truncatesBind truncatesPosition fun start => truncatesGroups start maxLeb128Size 0 0

end

end Iamf.Bits
