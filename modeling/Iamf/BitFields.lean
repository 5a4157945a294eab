import Iamf.BitWriter

/-! The primitive fields of the wire syntax as tape moves: what each reader takes,
what each writer puts down, and that the two agree. -/
namespace Iamf.Bits
open BitString TapeCodec ReadTape WriteTape

theorem advanceOneBitIsAdvance (c : BitCursor) (inside : c.bytePos < c.data.length) :
    c.advanceOneBit inside = BitCursor.advance 1 c := by
  have octet := c.inOctet
  have data : (c.advanceOneBit inside).data = c.data := by
    simp only [BitCursor.advanceOneBit]; split <;> rfl
  refine BitCursor.eqOfPosition (by rw [data, BitCursor.advanceData]) ?_
  rw [BitCursor.advancePosition (by rw [BitCursor.restLength, BitCursor.bitsRemaining]; omega)]
  simp only [BitCursor.advanceOneBit]
  split <;> simp only [BitCursor.position] <;> omega

theorem dropByteBits (byte : UInt8) (k : Nat) (inside : k < 8) :
    ∃ tail, (byteBits byte).drop k = byte.toNat.testBit (7 - k) :: tail := by
  have split := bitsOfSplit k (8 - k) byte.toNat
  rw [show k + (8 - k) = 8 by omega] at split
  rw [byteBits, split, List.drop_left' (bitsOfLength _ _), show 8 - k = (7 - k) + 1 by omega]
  exact ⟨_, rfl⟩

theorem restHead {c : BitCursor} {byte : UInt8} (found : c.data[c.bytePos]? = some byte) :
    ∃ tail, c.rest = byte.toNat.testBit (7 - c.bitOff) :: tail := by
  obtain ⟨inside, value⟩ := List.getElem?_eq_some_iff.mp found
  obtain ⟨tail, head⟩ := dropByteBits byte c.bitOff c.inOctet
  have octet := c.inOctet
  refine ⟨tail ++ bytesBits (c.data.drop (c.bytePos + 1)), ?_⟩
  rw [BitCursor.rest, BitCursor.position, ← List.drop_drop, bytesBitsDrop,
    List.drop_eq_getElem_cons inside, value, bytesBitsCons, List.drop_append_of_le_length (by simp; omega),
    head, List.cons_append]

theorem readBitOk {c : BitCursor} {bit : Bool} {tail : List Bool} (split : c.rest = bit :: tail) :
    readBit c = .ok bit (BitCursor.advance 1 c) := by
  have length := congrArg List.length split
  rw [BitCursor.restLength, BitCursor.bitsRemaining, List.length_cons] at length
  have inside : c.bytePos < c.data.length := by omega
  have found := List.getElem?_eq_getElem inside
  obtain ⟨tail', head⟩ := restHead found
  rw [split] at head
  have same := (List.cons.inj head).1
  unfold readBit
  split
  · rename_i missing
    rw [missing] at found
    contradiction
  · rename_i byte here
    have value := Option.some.inj (found.symm.trans here)
    rw [advanceOneBitIsAdvance]
    rw [same, value, Nat.testBit_eq_decide_div_mod_eq]
    simp only [Nat.shiftRight_eq_div_pow, Nat.and_one_is_mod]
    rfl

theorem readBitsOk (n acc : Nat) {c : BitCursor} {bs tail : List Bool} (length : bs.length = n)
    (split : c.rest = bs ++ tail) (room : acc * 2 ^ n + valueOf bs < 2 ^ 64) :
    readBits n acc c = .ok (acc * 2 ^ n + valueOf bs) (advance n c) := by
  induction n generalizing acc c bs with
  | zero =>
    have empty := List.length_eq_zero_iff.mp length
    subst empty
    simp only [readBits, pureOk, advanceZero]
    simp [valueOf]
  | succ n ih =>
    cases bs with
    | nil => simp at length
    | cons bit bs =>
      have size : bs.length = n := by simpa using length
      have head := readBitOk (by simpa using split : c.rest = bit :: (bs ++ tail))
      have tailBits : (advance 1 c : BitCursor).rest = bs ++ tail := by
        have moved := restAdvance 1 c (by change 1 ≤ c.rest.length; simp [split])
        change (advance 1 c : BitCursor).rest = c.rest.drop 1 at moved
        rw [moved, split]
        rfl
      have value : valueOf (bit :: bs) = bit.toNat * 2 ^ n + valueOf bs := by rw [valueOf, size]
      have widened : acc * 2 ^ (n + 1) = acc * 2 * 2 ^ n := by rw [Nat.pow_succ]; ring
      have small : acc * 2 + bit.toNat < 2 ^ 64 := by
        have positive := Nat.one_le_two_pow (n := n)
        have : (acc * 2 + bit.toNat) * 1 ≤ (acc * 2 + bit.toNat) * 2 ^ n := Nat.mul_le_mul_left _ positive
        have same : (acc * 2 + bit.toNat) * 2 ^ n = acc * 2 * 2 ^ n + bit.toNat * 2 ^ n := Nat.add_mul ..
        omega
      have next : (acc <<< 1) % 2 ^ 64 ||| bit.toNat = acc * 2 + bit.toNat := by
        have shifted : acc <<< 1 = 2 * acc := by rw [Nat.shiftLeft_eq]; omega
        rw [shifted, Nat.mod_eq_of_lt (by omega)]
        cases bit with
        | false => simp; omega
        | true =>
          have odd := Nat.two_pow_add_eq_or_of_lt (i := 1) (show 1 < 2 ^ 1 by omega) acc
          simp only [Nat.pow_one] at odd
          rw [Bool.toNat_true, ← odd]
          omega
      have total : acc * 2 ^ (n + 1) + valueOf (bit :: bs) = (acc * 2 + bit.toNat) * 2 ^ n + valueOf bs := by
        rw [widened, value, Nat.add_mul]; omega
      unfold readBits
      rw [bindOf _ head, next, total]
      change readBits n _ (advance 1 c) = _
      rw [ih _ size tailBits (by omega)]
      have behind := advanceAdd 1 n c (by change 1 + n ≤ c.rest.length; simp [split]; omega)
      rw [behind, Nat.add_comm 1 n]

theorem readUnsignedOk {n : Nat} {c : BitCursor} {bs tail : List Bool} (width : n ≤ 64)
    (length : bs.length = n) (split : c.rest = bs ++ tail) :
    readUnsigned n c = .ok (valueOf bs) (advance n c) := by
  have small := valueOfLt bs
  have room : valueOf bs < 2 ^ 64 := by
    have := Nat.pow_le_pow_right (show 0 < 2 by omega) width
    rw [length] at small; omega
  have inside : ¬ n > c.bitsRemaining := by
    rw [← BitCursor.restLength, split]; simp; omega
  simp only [readUnsigned, show ¬ n > 64 by omega, inside, if_false]
  have ok := readBitsOk n 0 length split (by omega)
  simpa using ok

theorem readUnsignedSource {n v : Nat} {c c' : BitCursor} (ok : readUnsigned n c = .ok v c') :
    n ≤ 64 ∧ v < 2 ^ n ∧ ∃ tail, c.rest = bitsOf n v ++ tail ∧ c' = advance n c := by
  unfold readUnsigned at ok
  simp only at ok
  split at ok
  · contradiction
  split at ok
  · contradiction
  rename_i width inside
  have size : (c.rest.take n).length = n := by
    rw [List.length_take, BitCursor.restLength]; omega
  have split := (List.take_append_drop n c.rest).symm
  have done := readUnsignedOk (by omega) size split
  simp only [readUnsigned, width, inside, if_false] at done
  rw [ok] at done
  cases done
  have small := valueOfLt (c.rest.take n)
  rw [size] at small
  refine ⟨by omega, small, c.rest.drop n, ?_, rfl⟩
  rw [← bitsOfUnique size]
  exact split

theorem readsUnsigned {n v : Nat} (φ : Nat) (width : n ≤ 64) (small : v < 2 ^ n) :
    Reads φ (readUnsigned n) (bitsOf n v) v := by
  intro r tail _ split
  have ok := readUnsignedOk width (bitsOfLength n v) split
  rw [bitsOfLength]
  rwa [valueOfBitsOf, Nat.mod_eq_of_lt small] at ok

theorem consumesUnsigned (n : Nat) :
    Consumes (readUnsigned n) fun v bs => n ≤ 64 ∧ v < 2 ^ n ∧ bs = bitsOf n v := by
  intro r v r' ok
  obtain ⟨width, small, tail, split, moved⟩ := readUnsignedSource ok
  exact ⟨bitsOf n v, tail, split, by rw [moved, bitsOfLength], width, small, rfl⟩

theorem hungryUnsigned {n : Nat} (positive : 0 < n) : Hungry (readUnsigned n) := by
  intro r empty
  cases result : readUnsigned n r with
  | error e r' => exact ⟨e, r', rfl⟩
  | ok v r' =>
    obtain ⟨_, _, tail, split, _⟩ := readUnsignedSource result
    have length := congrArg List.length (empty.symm.trans split)
    simp at length
    omega

theorem writeBitsIsAppend (value n : Nat) (w : BitWriter) :
    writeBits value n w = .ok () (append (bitsOf n value) w) := by
  induction n generalizing w with
  | zero => rfl
  | succ n ih =>
    have bit : ((value >>> n) &&& 1 == 1) = value.testBit n := by
      rw [Nat.testBit_eq_decide_div_mod_eq, Nat.shiftRight_eq_div_pow, Nat.and_one_is_mod]
      rfl
    unfold writeBits
    change writeBits value n (BitWriter.writeBit _ w) = _
    rw [ih, bit]
    rfl

theorem emitsUnsigned {n v : Nat} (width : n ≤ 64) (small : v < 2 ^ n) :
    Emits (writeUnsigned v n) (bitsOf n v) := by
  intro w
  unfold writeUnsigned
  rw [bindOf _ (getWriterOk w)]
  simp only [show ¬ n > 64 by omega, show ¬ (n < 64 ∧ v ≥ 2 ^ n) by omega, if_false]
  exact writeBitsIsAppend v n w

theorem refusesUnsigned {n v : Nat} (wide : n < 64) (large : 2 ^ n ≤ v) :
    Refuses (writeUnsigned v n) := by
  intro w
  refine ⟨w.outputError (.valueExceedsWidth (widthByte n)), w, ?_⟩
  unfold writeUnsigned
  rw [bindOf _ (getWriterOk w)]
  simp only [show ¬ n > 64 by omega, if_false, if_pos (show n < 64 ∧ v ≥ 2 ^ n from ⟨wide, large⟩)]
  rfl

theorem pairedUnsigned {n v : Nat} (φ : Nat) (width : n ≤ 64) (register : v < 2 ^ 64) :
    Paired φ (φ + n) (writeUnsigned v n) (readUnsigned n) v := by
  by_cases small : v < 2 ^ n
  · exact .inr ⟨bitsOf n v, by simp, emitsUnsigned width small, readsUnsigned φ width small⟩
  · have wide : n ≠ 64 := by rintro rfl; exact small register
    exact .inl (refusesUnsigned (by omega) (by omega))

theorem rewritesUnsigned {canonical : Prop} {n v : Nat} {bs : List Bool} (width : n ≤ 64) (small : v < 2 ^ n)
    (bits : bs = bitsOf n v) : Rewrites canonical (writeUnsigned v n) bs := by
  subst bits
  exact ⟨_, emitsUnsigned width small, by simp, rfl, fun _ => rfl⟩

section Registers

variable (canonical : Prop)

theorem pairedBool (φ : Nat) (b : Bool) : Paired φ (φ + 1) (writeBool b) readBool b :=
  pairedReturn (pairedUnsigned φ (by omega) (by cases b <;> simp)) (by cases b <;> rfl)

theorem readsBool (φ : Nat) (b : Bool) : Reads φ readBool (bitsOf 1 b.toNat) b :=
  readsReturn (readsUnsigned φ (by omega) (by cases b <;> simp)) (by cases b <;> rfl)

theorem consumesBoolBits : Consumes readBool fun b bs => bs = bitsOf 1 b.toNat := by
  refine consumesBind (consumesUnsigned 1) fun v bs ⟨_, small, bits⟩ => consumesPure ?_
  rw [List.append_nil, bits]
  have cases : v = 0 ∨ v = 1 := by omega
  rcases cases with rfl | rfl <;> rfl

theorem consumesBool : Consumes readBool fun b bs => bs.length = 1 ∧ Rewrites canonical (writeBool b) bs :=
  consumesMono consumesBoolBits fun b _ bits =>
    ⟨by rw [bits, bitsOfLength], rewritesUnsigned (by omega) (by cases b <;> simp) bits⟩

theorem pairedU8 {n : Nat} (φ : Nat) (v : UInt8) (width : n ≤ 64) :
    Paired φ (φ + n) (writeUnsigned v.toNat n) (readU8 n) v := by
  have small := v.toNat_lt
  refine pairedReturn (pairedUnsigned φ width (by omega)) ?_
  simp [small]

theorem pairedU16 {n : Nat} (φ : Nat) (v : UInt16) (width : n ≤ 64) :
    Paired φ (φ + n) (writeUnsigned v.toNat n) (readU16 n) v := by
  have small := v.toNat_lt
  refine pairedReturn (pairedUnsigned φ width (by omega)) ?_
  simp [small]

theorem pairedU32 {n : Nat} (φ : Nat) (v : UInt32) (width : n ≤ 64) :
    Paired φ (φ + n) (writeUnsigned v.toNat n) (readU32 n) v := by
  have small := v.toNat_lt
  refine pairedReturn (pairedUnsigned φ width (by omega)) ?_
  simp [small]

theorem readsU8 {n : Nat} {v : UInt8} (φ : Nat) (width : n ≤ 64) (small : v.toNat < 2 ^ n) :
    Reads φ (readU8 n) (bitsOf n v.toNat) v := by
  have octet := v.toNat_lt
  exact readsReturn (readsUnsigned φ width small) (by rw [if_pos octet, UInt8.ofNat_toNat])

theorem consumesU8Bits {n : Nat} (narrow : n ≤ 8) : Consumes (readU8 n) fun v bs =>
    v.toNat < 2 ^ n ∧ bs = bitsOf n v.toNat := by
  refine consumesBind (consumesUnsigned n) fun v bs ⟨_, small, bits⟩ => consumesPure ?_
  have inside := Nat.lt_of_lt_of_le small (Nat.pow_le_pow_right (show 0 < 2 by omega) narrow)
  rw [List.append_nil, if_pos inside, UInt8.toNat_ofNat', Nat.mod_eq_of_lt inside]
  exact ⟨small, bits⟩

theorem consumesU8 {n : Nat} (narrow : n ≤ 8) : Consumes (readU8 n) fun v bs =>
    bs.length = n ∧ v.toNat < 2 ^ n ∧ Rewrites canonical (writeUnsigned v.toNat n) bs :=
  consumesMono (consumesU8Bits narrow) fun _ _ ⟨small, bits⟩ =>
    ⟨by rw [bits, bitsOfLength], small, rewritesUnsigned (by omega) small bits⟩

theorem consumesU16 {n : Nat} (narrow : n ≤ 16) : Consumes (readU16 n) fun v bs =>
    bs.length = n ∧ v.toNat < 2 ^ n ∧ Rewrites canonical (writeUnsigned v.toNat n) bs := by
  refine consumesBind (consumesUnsigned n) fun v bs ⟨width, small, bits⟩ => consumesPure ?_
  have inside := Nat.lt_of_lt_of_le small (Nat.pow_le_pow_right (show 0 < 2 by omega) narrow)
  rw [List.append_nil, if_pos inside, UInt16.toNat_ofNat', Nat.mod_eq_of_lt inside]
  exact ⟨by rw [bits, bitsOfLength], small, rewritesUnsigned width small bits⟩

theorem consumesU32Bits {n : Nat} (narrow : n ≤ 32) : Consumes (readU32 n) fun v bs =>
    v.toNat < 2 ^ n ∧ bs = bitsOf n v.toNat := by
  refine consumesBind (consumesUnsigned n) fun v bs ⟨_, small, bits⟩ => consumesPure ?_
  have inside := Nat.lt_of_lt_of_le small (Nat.pow_le_pow_right (show 0 < 2 by omega) narrow)
  rw [List.append_nil, if_pos inside, UInt32.toNat_ofNat', Nat.mod_eq_of_lt inside]
  exact ⟨small, bits⟩

theorem consumesU32 {n : Nat} (narrow : n ≤ 32) : Consumes (readU32 n) fun v bs =>
    bs.length = n ∧ v.toNat < 2 ^ n ∧ Rewrites canonical (writeUnsigned v.toNat n) bs :=
  consumesMono (consumesU32Bits narrow) fun _ _ ⟨small, bits⟩ =>
    ⟨by rw [bits, bitsOfLength], small, rewritesUnsigned (by omega) small bits⟩

theorem pairedU64 {n : Nat} (φ : Nat) (v : UInt64) (width : n ≤ 64) :
    Paired φ (φ + n) (writeUnsigned v.toNat n) (readU64 n) v := by
  refine pairedReturn (pairedUnsigned φ width v.toNat_lt) ?_
  rw [UInt64.ofNat_toNat]

theorem consumesU64 {n : Nat} : Consumes (readU64 n) fun v bs =>
    bs.length = n ∧ v.toNat < 2 ^ n ∧ Rewrites canonical (writeUnsigned v.toNat n) bs := by
  refine consumesBind (consumesUnsigned n) fun v bs ⟨width, small, bits⟩ => consumesPure ?_
  have inside := Nat.lt_of_lt_of_le small (Nat.pow_le_pow_right (show 0 < 2 by omega) width)
  rw [List.append_nil, UInt64.toNat_ofNat', Nat.mod_eq_of_lt inside]
  exact ⟨by rw [bits, bitsOfLength], small, rewritesUnsigned width small bits⟩

theorem readsArray {n : Nat} (φ : Nat) (v : {bytes : Bytes // bytes.length = n}) :
    Reads φ (readArray n) (bytesBits v.val) v := by
  induction n generalizing φ with
  | zero =>
    obtain ⟨bytes, length⟩ := v
    have empty := List.length_eq_zero_iff.mp length
    subst empty
    exact readsPure φ _
  | succ n ih =>
    obtain ⟨bytes, length⟩ := v
    cases bytes with
    | nil => simp at length
    | cons byte bytes =>
      refine readsBind (readsU8 φ (by omega) byte.toNat_lt) ?_
      exact readsReturn (ih _ ⟨bytes, by simpa using length⟩) rfl

theorem consumesArray (n : Nat) : Consumes (readArray n) fun v bs => bs = bytesBits v.val := by
  induction n with
  | zero => exact consumesPure rfl
  | succ n ih =>
    refine consumesBind (consumesU8Bits (by omega)) fun byte bs ⟨_, bits⟩ => ?_
    refine consumesBind ih fun rest cs tail => consumesPure ?_
    simp [bits, tail, byteBits]

theorem writeSignedFits {n : Nat} {v : Int} (width : 0 < n ∧ n ≤ 64) (fits : Int.bmod v (2 ^ n) = v) :
    writeSigned v n = writeUnsigned (v % 2 ^ n).toNat n := by
  funext w
  unfold writeSigned
  rw [bindOf _ (getWriterOk w), if_neg (by omega), if_neg (by simpa using fits)]

def signed16 (raw : Nat) : Int16 :=
  let value := Int.bmod raw (2 ^ 16)
  if -32768 ≤ value ∧ value ≤ 32767 then Int16.ofInt value else 0

theorem readI16IsSigned : readI16 = readUnsigned 16 >>= fun raw => pure (signed16 raw) := by
  funext c
  cases raw : readUnsigned 16 c with
  | ok v c' =>
    have signed : readSigned 16 c = .ok (Int.bmod v (2 ^ 16)) c' := by
      unfold readSigned
      rw [bindOf _ (bytePositionOk c), if_neg (by omega), bindOf _ raw]
      rfl
    rw [bindOf _ raw, readI16, bindOf _ signed]
    rfl
  | error e c' =>
    have signed : readSigned 16 c = .error e c' := by
      unfold readSigned
      rw [bindOf _ (bytePositionOk c), if_neg (by omega), bindError _ raw]
    rw [bindError _ raw, readI16, bindError _ signed]

theorem signed16ToInt (raw : Nat) : (signed16 raw).toInt = Int.bmod raw 65536 := by
  have bmod := Int.bmod_def (raw : Int) 65536
  unfold signed16
  simp only [show (2 ^ 16 : Nat) = 65536 from rfl]
  rw [if_pos (by omega), Int16.toInt_ofInt_of_le (by omega) (by omega)]

theorem int16Fits (v : Int16) : Int.bmod v.toInt (2 ^ 16) = v.toInt := by
  have low := v.le_toInt
  have high := v.toInt_lt
  rw [Int.bmod_def]
  omega

theorem signed16Field (v : Int16) : signed16 (v.toInt % 2 ^ 16).toNat = v := by
  have low := v.le_toInt
  have high := v.toInt_lt
  apply Int16.toInt.inj
  rw [signed16ToInt, Int.bmod_def]
  omega

theorem fieldSigned16 {raw : Nat} (small : raw < 2 ^ 16) : ((signed16 raw).toInt % 2 ^ 16).toNat = raw := by
  rw [signed16ToInt, Int.bmod_def]
  omega

theorem pairedI16 (φ : Nat) (v : Int16) : Paired φ (φ + 16) (writeSigned v.toInt 16) readI16 v := by
  rw [writeSignedFits (by omega) (int16Fits v), readI16IsSigned]
  refine pairedReturn (pairedUnsigned φ (by omega) ?_) (by rw [signed16Field])
  have := v.le_toInt
  omega

theorem emitsI16 (v : Int16) : ∃ bs, bs.length = 16 ∧ Emits (writeSigned v.toInt 16) bs := by
  rw [writeSignedFits (by omega) (int16Fits v)]
  exact ⟨_, bitsOfLength _ _, emitsUnsigned (by omega) (by omega)⟩

theorem consumesI16 : Consumes readI16 fun v bs =>
    bs.length = 16 ∧ Rewrites canonical (writeSigned v.toInt 16) bs := by
  rw [readI16IsSigned]
  refine consumesBind (consumesUnsigned 16) fun raw bs ⟨width, small, bits⟩ => consumesPure ?_
  rw [List.append_nil, writeSignedFits (by omega) (int16Fits _), fieldSigned16 small]
  exact ⟨by rw [bits, bitsOfLength], rewritesUnsigned width small bits⟩

end Registers

section Spans

variable {canonical : Prop}

theorem emitsEachByte (bytes : Bytes) :
    Emits (writeEach (fun byte : UInt8 => writeUnsigned byte.toNat 8) bytes) (bytesBits bytes) := by
  induction bytes with
  | nil => exact emitsPure
  | cons byte bytes ih => exact emitsBind (emitsUnsigned (by omega) byte.toNat_lt) ih

theorem emitsBytes (bytes : Bytes) : Emits (writeBytes bytes) (bytesBits bytes) := by
  intro w
  unfold writeBytes
  rw [bindOf _ (getWriterOk w)]
  split
  · rename_i aligned
    have start : w.bitOff = 0 := by simpa [BitWriter.isByteAligned] using aligned
    have whole := BitWriter.appendBytes bytes w start
    change _ = EStateM.Result.ok () (BitWriter.append (bytesBits bytes) w)
    rw [whole, BitWriter.alignedIsOfBytes start]
    rfl
  · exact emitsEachByte bytes w

theorem readSpanOk {c : BitCursor} {bytes : Bytes} {tail : List Bool} (aligned : c.bitOff = 0)
    (split : c.rest = bytesBits bytes ++ tail) :
    readUint8Span bytes.length c = .ok bytes (advance (bytesBits bytes).length c) := by
  have length := congrArg List.length split
  rw [BitCursor.restLength, List.length_append, bytesBitsLength] at length
  have room : ¬ bytes.length > c.bytesRemaining := by
    simp only [BitCursor.bytesRemaining]; omega
  have suffix : bytesBits (c.data.drop c.bytePos) = bytesBits bytes ++ tail := by
    rw [← split, BitCursor.rest, BitCursor.position, aligned, Nat.add_zero, bytesBitsDrop]
  have front : (c.data.drop c.bytePos).take bytes.length = bytes := by
    apply bytesBitsInjective
    rw [← bytesBitsTake, suffix, ← bytesBitsLength, List.take_left]
  have moved : c.skipBytes bytes.length (Nat.le_of_not_lt room) = advance (bytesBits bytes).length c := by
    refine BitCursor.eqOfPosition rfl ?_
    change _ = (BitCursor.advance _ c).position
    rw [BitCursor.advancePosition (by rw [split]; simp), bytesBitsLength]
    simp only [BitCursor.position, BitCursor.skipBytes]
    omega
  simp only [readUint8Span, BitCursor.isByteAligned, aligned, room, front, moved]
  rfl

theorem readsSpan {bytes : Bytes} {n : Nat} (length : bytes.length = n) :
    Reads 0 (readUint8Span n) (bytesBits bytes) bytes := by
  subst length
  intro r tail offset split
  exact readSpanOk (by rw [← phaseIsBitOff, offset]) split

theorem readSpanSource {n : Nat} {bytes : Bytes} {c c' : BitCursor} (ok : readUint8Span n c = .ok bytes c') :
    c.bitOff = 0 ∧ bytes.length = n ∧ ∃ tail, c.rest = bytesBits bytes ++ tail ∧
      c' = advance (bytesBits bytes).length c := by
  have success := ok
  unfold readUint8Span at ok
  simp only at ok
  split at ok
  · contradiction
  split at ok
  · contradiction
  rename_i aligned room
  cases ok
  have start : c.bitOff = 0 := by simpa [BitCursor.isByteAligned] using aligned
  have inData := c.inData
  have size : ((c.data.drop c.bytePos).take n).length = n := by
    simp only [BitCursor.bytesRemaining, BitCursor.bitsRemaining] at room
    rw [List.length_take, List.length_drop]
    omega
  have split : c.rest = bytesBits ((c.data.drop c.bytePos).take n) ++
      bytesBits ((c.data.drop c.bytePos).drop n) := by
    rw [← bytesBitsAppend, List.take_append_drop, BitCursor.rest, BitCursor.position, start,
      Nat.add_zero, bytesBitsDrop]
  have again := readSpanOk start split
  rw [size, success] at again
  refine ⟨start, size, _, split, ?_⟩
  exact (EStateM.Result.ok.inj again).2

theorem consumesSpan (n : Nat) :
    Consumes (readUint8Span n) fun bytes bs => bytes.length = n ∧ bs = bytesBits bytes := by
  intro r bytes r' ok
  obtain ⟨_, length, tail, split, moved⟩ := readSpanSource ok
  exact ⟨_, tail, split, moved, length, rfl⟩

theorem rewritesBytes (bytes : Bytes) : Rewrites canonical (writeBytes bytes) (bytesBits bytes) :=
  ⟨_, emitsBytes bytes, by simp, rfl, fun _ => rfl⟩

theorem pairedBytes {bytes : Bytes} {n : Nat} (length : bytes.length = n) :
    Paired 0 0 (writeBytes bytes) (readUint8Span n) bytes :=
  .inr ⟨bytesBits bytes, by simp, emitsBytes bytes, readsSpan length⟩

end Spans

section Strings

variable (canonical : Prop)

theorem maskOctet {v : Nat} (small : v < 2 ^ 8) : v &&& 0xff = v := by
  rw [show (0xff : Nat) = 2 ^ 8 - 1 from rfl, Nat.and_two_pow_sub_one_eq_mod, Nat.mod_eq_of_lt small]

theorem readsStringFrom (φ start room : Nat) (out : Bytes) {payload : Bytes} (noNul : (0 : UInt8) ∉ payload)
    (fits : payload.length + 1 ≤ room) :
    Reads φ (readStringFrom start room out) (bytesBits (payload ++ [0])) (out ++ payload ++ [0]) := by
  induction payload generalizing room out φ with
  | nil =>
    cases room with
    | zero => simp at fits
    | succ room =>
      have byte := readsUnsigned φ (n := 8) (v := 0) (by omega) (by omega)
      have last := readsPure (φ + (bitsOf 8 0).length) (E := Error) (R := BitCursor) (out ++ [(0 : UInt8)])
      unfold readStringFrom
      have both := readsBind (k := fun value =>
        let byte := UInt8.ofNat (value &&& 0xff)
        if byte = 0 then pure (out ++ [byte]) else readStringFrom start room (out ++ [byte])) byte last
      simpa [bytesBits, byteBits] using both
  | cons byte payload ih =>
    cases room with
    | zero => simp at fits
    | succ room =>
      simp only [List.length_cons] at fits
      simp only [List.mem_cons, not_or] at noNul
      have octet := byte.toNat_lt
      have head := readsUnsigned φ (n := 8) (v := byte.toNat) (by omega) octet
      have tail := ih (φ + (bitsOf 8 byte.toNat).length) room (out ++ [byte]) noNul.2 (by omega)
      unfold readStringFrom
      rw [List.cons_append, bytesBitsCons, byteBits]
      refine readsBind head ?_
      simp only [maskOctet octet, UInt8.ofNat_toNat]
      rw [if_neg (fun zero => noNul.1 zero.symm)]
      simpa using tail

theorem emitsString {payload : Bytes} (short : payload.length + 1 ≤ 128) (noNul : (0 : UInt8) ∉ payload) :
    Emits (writeString payload) (bytesBits (payload ++ [0])) := by
  intro w
  have both := emitsBind (k := fun _ => writeUnsigned 0 8) (emitsBytes payload)
    (emitsUnsigned (n := 8) (v := 0) (by omega) (by omega)) w
  unfold writeString
  rw [bindOf _ (getWriterOk w), if_neg (by omega), if_neg (by simpa using noNul), both,
    bytesBitsAppend]
  rfl

theorem pairedString (φ : Nat) (payload : Bytes) :
    Paired φ φ (writeString payload) readString (payload ++ [0]) := by
  by_cases long : payload.length + 1 > 128
  · left
    intro w
    refine ⟨w.outputError .stringTooLong, w, ?_⟩
    unfold writeString
    rw [bindOf _ (getWriterOk w), if_pos long]
    rfl
  by_cases nul : payload.contains 0 = true
  · left
    intro w
    refine ⟨w.outputError .stringHasInteriorNul, w, ?_⟩
    unfold writeString
    rw [bindOf _ (getWriterOk w), if_neg long, if_pos nul]
    rfl
  right
  have noNul : (0 : UInt8) ∉ payload := by simpa using nul
  refine ⟨bytesBits (payload ++ [0]), by simp; omega, emitsString (by omega) noNul, ?_⟩
  intro r tail offset split
  unfold readString
  rw [bindOf _ (bytePositionOk r)]
  exact readsStringFrom φ r.bytePos maxStringBytes [] noNul
    (by simp only [maxStringBytes]; omega) r tail offset split

theorem consumesStringFrom (start room : Nat) (out : Bytes) :
    Consumes (readStringFrom start room out) fun v bs => ∃ payload, v = out ++ payload ++ [0] ∧
      payload.length + 1 ≤ room ∧ (0 : UInt8) ∉ payload ∧ bs = bytesBits (payload ++ [0]) := by
  induction room generalizing out with
  | zero => exact consumesThrow _ _
  | succ room ih =>
    unfold readStringFrom
    refine consumesBind (consumesUnsigned 8) fun raw bs post => ?_
    obtain ⟨_, small, bits⟩ := post
    have value : (UInt8.ofNat raw).toNat = raw := by rw [UInt8.toNat_ofNat', Nat.mod_eq_of_lt small]
    simp only [maskOctet small]
    have octet : bs = byteBits (UInt8.ofNat raw) := by rw [byteBits, value, bits]
    split
    · rename_i zero
      refine consumesPure ⟨[], by simp [zero], by simp, by simp, ?_⟩
      rw [List.append_nil, octet, zero]
      rfl
    · rename_i nonzero
      refine consumesMono (ih _) fun v cs post => ?_
      obtain ⟨payload, same, length, noNul, tail⟩ := post
      refine ⟨UInt8.ofNat raw :: payload, by simp [same], by simp; omega, ?_, ?_⟩
      · simpa [noNul] using fun zero => nonzero zero.symm
      · rw [octet, tail]; rfl

theorem consumesString : Consumes readString fun v bs =>
    ∃ payload, v = payload ++ [0] ∧ Rewrites canonical (writeString payload) bs := by
  intro r v r' ok
  unfold readString at ok
  rw [bindOf _ (bytePositionOk r)] at ok
  obtain ⟨bs, tail, split, moved, payload, same, length, noNul, bits⟩ := consumesStringFrom _ _ _ r v r' ok
  refine ⟨bs, tail, split, moved, payload, by simpa using same, ?_⟩
  subst bits
  exact ⟨_, emitsString length noNul, Nat.le_refl _, rfl, fun _ => rfl⟩

end Strings

end Iamf.Bits
