import Iamf.BitCursor

/-! The write half of the bit layer, method for method the mirror of the read half. -/
namespace Iamf.Bits
open BitString TapeCodec

/-- Only the top `bitOff` bits of the byte under construction are meaningful, and the
others are zero. -/
structure BitWriter where
  out : Bytes
  partialByte : UInt8
  bitOff : Nat
  inOctet : bitOff < 8
  clean : partialByte.toNat % 2 ^ (8 - bitOff) = 0

abbrev Writer := EStateM Error BitWriter

namespace BitWriter

theorem octetStart : 0 < 8 := by decide

theorem nothingPending : (0 : UInt8).toNat % 2 ^ (8 - 0) = 0 := by decide

def new : BitWriter := ⟨[], 0, 0, octetStart, nothingPending⟩

def isByteAligned (w : BitWriter) : Bool := w.bitOff == 0

def lenBytes (w : BitWriter) : Nat := w.out.length

def outputOffset (w : BitWriter) : Nat := w.out.length

def placeBit (bit : Bool) (w : BitWriter) : Nat :=
  let shift := 7 - w.bitOff
  if bit then w.partialByte.toNat ||| 1 <<< shift else w.partialByte.toNat

theorem placeBitLt (bit : Bool) (w : BitWriter) : placeBit bit w < 2 ^ 8 := by
  have small := w.partialByte.toNat_lt
  have shifted : 1 <<< (7 - w.bitOff) < 2 ^ 8 := by
    rw [Nat.one_shiftLeft]; exact Nat.pow_lt_pow_right (by omega) (by omega)
  unfold placeBit
  split
  · exact Nat.or_lt_two_pow small shifted
  · exact small

theorem placeBitClean (bit : Bool) (w : BitWriter) : placeBit bit w % 2 ^ (7 - w.bitOff) = 0 := by
  have clean := w.clean
  have octet := w.inOctet
  rw [show 8 - w.bitOff = (7 - w.bitOff) + 1 by omega] at clean
  have low : w.partialByte.toNat % 2 ^ (7 - w.bitOff) = 0 := by
    have := Nat.mod_mod_of_dvd w.partialByte.toNat (Nat.pow_dvd_pow 2 (Nat.le_succ (7 - w.bitOff)))
    rw [← this, clean, Nat.zero_mod]
  unfold placeBit
  split
  · rw [Nat.or_mod_two_pow, low, Nat.one_shiftLeft, Nat.mod_self]; rfl
  · exact low

def writeBit (bit : Bool) (w : BitWriter) : BitWriter :=
  let next := w.bitOff + 1
  if carry : next ≥ 8 then
    ⟨w.out ++ [UInt8.ofNat (placeBit bit w)], 0, 0, octetStart, nothingPending⟩
  else
    ⟨w.out, UInt8.ofNat (placeBit bit w), next, by omega, by
      rw [UInt8.toNat_ofNat', Nat.mod_eq_of_lt (placeBitLt bit w)]
      rw [show 8 - next = 7 - w.bitOff by omega]
      exact placeBitClean bit w⟩

def clear (_ : BitWriter) : BitWriter := new

def outputError (kind : ErrorKind) (w : BitWriter) : Error := ⟨kind, .outputOffset w.outputOffset⟩

def asBytes (w : BitWriter) : Except Error Bytes :=
  if w.bitOff ≠ 0 then .error (w.outputError .notByteAligned) else .ok w.out

def finish (w : BitWriter) : Except Error Bytes :=
  if w.bitOff ≠ 0 then .error (w.outputError .notByteAligned) else .ok w.out

def toBits (w : BitWriter) : List Bool :=
  bytesBits w.out ++ (byteBits w.partialByte).take w.bitOff

def append (bits : List Bool) (w : BitWriter) : BitWriter := bits.foldl (fun w bit => writeBit bit w) w

instance : WriteTape BitWriter where
  append := append
  appendNil _ := rfl
  appendAppend _ _ _ := (List.foldl_append ..).symm

theorem toBitsLength (w : BitWriter) : w.toBits.length = 8 * w.out.length + w.bitOff := by
  have octet := w.inOctet
  simp only [toBits, List.length_append, bytesBitsLength, List.length_take, byteBitsLength]
  omega

theorem takeBits (n k v : Nat) (inside : k ≤ n) : (bitsOf n v).take k = bitsOf k (v / 2 ^ (n - k)) := by
  have split := bitsOfSplit k (n - k) v
  rw [show k + (n - k) = n by omega] at split
  rw [split, List.take_left' (bitsOfLength _ _)]

theorem placedBits (bit : Bool) (w : BitWriter) :
    bitsOf (w.bitOff + 1) (placeBit bit w / 2 ^ (7 - w.bitOff)) =
      (byteBits w.partialByte).take w.bitOff ++ [bit] := by
  have octet := w.inOctet
  have clean := w.clean
  rw [bitsOfSplit w.bitOff 1, byteBits, takeBits 8 w.bitOff _ (by omega)]
  have high : placeBit bit w / 2 ^ (7 - w.bitOff) / 2 ^ 1 =
      w.partialByte.toNat / 2 ^ (8 - w.bitOff) := by
    rw [Nat.div_div_eq_div_mul, ← Nat.pow_add, show 7 - w.bitOff + 1 = 8 - w.bitOff by omega]
    unfold placeBit
    split
    · rw [Nat.or_div_two_pow, Nat.one_shiftLeft,
        Nat.div_eq_of_lt (Nat.pow_lt_pow_right (by omega) (by omega : 7 - w.bitOff < 8 - w.bitOff)),
        Nat.or_zero]
    · rfl
  have low : (placeBit bit w / 2 ^ (7 - w.bitOff)).testBit 0 = bit := by
    have clear : w.partialByte.toNat.testBit (7 - w.bitOff) = false := by
      have bitAt := congrArg (fun n => Nat.testBit n (7 - w.bitOff)) clean
      simpa [Nat.testBit_mod_two_pow, show 7 - w.bitOff < 8 - w.bitOff by omega] using bitAt
    rw [Nat.testBit_div_two_pow, Nat.zero_add]
    unfold placeBit
    cases bit with
    | false => simpa using clear
    | true => simp [Nat.testBit_shiftLeft]
  rw [high]
  simp only [bitsOf, low]

theorem toBitsWriteBit (bit : Bool) (w : BitWriter) : (writeBit bit w).toBits = w.toBits ++ [bit] := by
  have octet := w.inOctet
  have placed := placedBits bit w
  have value : (UInt8.ofNat (placeBit bit w)).toNat = placeBit bit w := by
    rw [UInt8.toNat_ofNat', Nat.mod_eq_of_lt (placeBitLt bit w)]
  by_cases full : w.bitOff + 1 ≥ 8
  · have last : w.bitOff = 7 := by omega
    rw [last] at placed
    simp only [writeBit, full, dite_true]
    simp only [toBits, bytesBitsAppend, bytesBitsCons, bytesBitsNil, List.append_nil, List.take_zero,
      List.append_assoc]
    rw [show w.bitOff = 7 from last, ← placed, byteBits, value]
    simp
  · simp only [writeBit, full, dite_false]
    simp only [toBits, List.append_assoc]
    rw [← placed, byteBits, value, takeBits 8 _ _ (by omega),
      show 8 - (w.bitOff + 1) = 7 - w.bitOff by omega]

theorem toBitsAppend (bits : List Bool) (w : BitWriter) : (append bits w).toBits = w.toBits ++ bits := by
  induction bits generalizing w with
  | nil => simp [append]
  | cons bit bits ih =>
    change (append bits (writeBit bit w)).toBits = _
    rw [ih, toBitsWriteBit, List.append_assoc, List.singleton_append]

theorem eqOfToBits {w v : BitWriter} (same : w.toBits = v.toBits) : w = v := by
  have lengths := congrArg List.length same
  rw [toBitsLength, toBitsLength] at lengths
  obtain ⟨wo, wp, wb, wi, wc⟩ := w
  obtain ⟨vo, vp, vb, vi, vc⟩ := v
  simp only at lengths
  have bits : wb = vb := by omega
  subst bits
  obtain ⟨out, tops⟩ := bytesBitsCancel (by simpa using (by omega : wo.length = vo.length)) same
  subst out
  have high : wp.toNat / 2 ^ (8 - wb) = vp.toNat / 2 ^ (8 - wb) := by
    simp only [byteBits, takeBits 8 wb _ (by omega)] at tops
    have values := congrArg valueOf tops
    rw [valueOfBitsOf, valueOfBitsOf] at values
    have bound : ∀ p : UInt8, p.toNat / 2 ^ (8 - wb) < 2 ^ wb := by
      intro p
      rw [Nat.div_lt_iff_lt_mul (Nat.two_pow_pos _), ← Nat.pow_add,
        show wb + (8 - wb) = 8 by omega]
      exact p.toNat_lt
    rwa [Nat.mod_eq_of_lt (bound wp), Nat.mod_eq_of_lt (bound vp)] at values
  have whole : wp.toNat = vp.toNat := by
    rw [← Nat.div_add_mod wp.toNat (2 ^ (8 - wb)), ← Nat.div_add_mod vp.toNat (2 ^ (8 - wb)),
      high, wc, vc]
  have pending : wp = vp := UInt8.toNat_inj.mp whole
  subst pending
  rfl

def ofBytes (bytes : Bytes) : BitWriter := ⟨bytes, 0, 0, octetStart, nothingPending⟩

@[simp] theorem toBitsOfBytes (bytes : Bytes) : (ofBytes bytes).toBits = bytesBits bytes := by
  simp [toBits, ofBytes]

theorem alignedIsOfBytes {w : BitWriter} (aligned : w.bitOff = 0) : w = ofBytes w.out := by
  apply eqOfToBits
  simp [toBits, ofBytes, aligned]

theorem appendBytes (bytes : Bytes) (w : BitWriter) (aligned : w.bitOff = 0) :
    append (bytesBits bytes) w = ofBytes (w.out ++ bytes) := by
  apply eqOfToBits
  rw [toBitsAppend, toBitsOfBytes, bytesBitsAppend]
  simp [toBits, aligned]

theorem appendBitOff (bits : List Bool) (w : BitWriter) :
    (append bits w).bitOff = (w.bitOff + bits.length) % 8 := by
  have lengths := congrArg List.length (toBitsAppend bits w)
  rw [toBitsLength, List.length_append, toBitsLength] at lengths
  have octet := (append bits w).inOctet
  omega

theorem finishAppend {bits : List Bool} {bytes : Bytes} (packed : bits = bytesBits bytes) :
    (append bits new).finish = .ok bytes := by
  subst packed
  have at0 : append (bytesBits bytes) new = ofBytes ([] ++ bytes) := appendBytes bytes new rfl
  rw [at0]
  rfl

end BitWriter

def getWriter : Writer BitWriter := get

theorem getWriterOk (w : BitWriter) : getWriter w = .ok w w := rfl

def runWriter (g : Writer Unit) : Except Error BitWriter :=
  match g .new with
  | .ok () w => .ok w
  | .error e _ => .error e

def finishWriter (g : Writer Unit) : Except Error Bytes := do
  let w ← runWriter g
  w.finish

theorem emitsUnique {g : Writer Unit} {as bs : List Bool} (first : Emits g as) (second : Emits g bs) :
    as = bs := by
  have same := (first .new).symm.trans (second .new)
  have states : (BitWriter.append as .new).toBits = (BitWriter.append bs .new).toBits :=
    congrArg BitWriter.toBits (EStateM.Result.ok.inj same).2
  simpa [BitWriter.toBitsAppend] using states

theorem emitsNotRefuses {g : Writer Unit} {bs : List Bool} (emits : Emits g bs) : ¬ Refuses g := by
  intro refused
  obtain ⟨e, w', failed⟩ := refused .new
  rw [emits] at failed
  contradiction

theorem runWriterEmits {g : Writer Unit} {bs : List Bool} (emits : Emits g bs) :
    runWriter g = .ok (BitWriter.append bs .new) := by
  unfold runWriter
  rw [emits]
  rfl

theorem finishWriterEmits {g : Writer Unit} {bytes : Bytes} (emits : Emits g (bytesBits bytes)) :
    finishWriter g = .ok bytes := by
  unfold finishWriter
  rw [runWriterEmits emits]
  exact BitWriter.finishAppend rfl

theorem finishWriterRefuses {g : Writer Unit} (refused : Refuses g) : ∃ e, finishWriter g = .error e := by
  obtain ⟨e, w', failed⟩ := refused .new
  exact ⟨e, by unfold finishWriter runWriter; rw [failed]; rfl⟩

theorem finishWriterSource {g : Writer Unit} {bs : List Bool} {bytes : Bytes} (emits : Emits g bs)
    (ok : finishWriter g = .ok bytes) : bs = bytesBits bytes := by
  have state := runWriterEmits emits
  have bits := BitWriter.toBitsAppend bs .new
  unfold finishWriter at ok
  rw [state] at ok
  change (BitWriter.append bs .new).finish = .ok bytes at ok
  unfold BitWriter.finish at ok
  split at ok
  · contradiction
  rename_i aligned
  have aligned : (BitWriter.append bs .new).bitOff = 0 := by simpa using aligned
  cases ok
  rw [BitWriter.alignedIsOfBytes aligned, BitWriter.toBitsOfBytes] at bits
  exact bits.symm

def writeBits (value : Nat) : Nat → Writer Unit
  | 0 => pure ()
  | n+1 => do
    modify (BitWriter.writeBit ((value >>> n) &&& 1 == 1))
    writeBits value n

def writeUnsigned (value bits : Nat) : Writer Unit := do
  let w ← getWriter
  if bits > 64 then throw (w.outputError (.unsupportedWidth (widthByte bits)))
  else if bits < 64 ∧ value ≥ 2 ^ bits then
    throw (w.outputError (.valueExceedsWidth (widthByte bits)))
  else writeBits value bits

-- write `value` as `bits` (1..=64) of two's complement. The range check of the source shifts the value to the top of
-- an `i64` and arithmetically back
def writeSigned (value : Int) (bits : Nat) : Writer Unit := do
  let w ← getWriter
  if bits = 0 ∨ bits > 64 then
    throw (w.outputError (.unsupportedWidth (widthByte bits)))
  else if Int.bmod value (2 ^ bits) ≠ value then
    throw (w.outputError (.valueExceedsWidth (widthByte bits)))
  else writeUnsigned (value % 2 ^ bits).toNat bits

def writeBool (value : Bool) : Writer Unit := writeUnsigned value.toNat 1

def writeBytes (bytes : Bytes) : Writer Unit := do
  let w ← getWriter
  if w.isByteAligned then set { w with out := w.out ++ bytes }
  else writeEach (fun byte => writeUnsigned byte.toNat 8) bytes

def writeString (payload : Bytes) : Writer Unit := do
  let w ← getWriter
  if payload.length + 1 > 128 then throw (w.outputError .stringTooLong)
  else if payload.contains 0 then throw (w.outputError .stringHasInteriorNul)
  else do
    writeBytes payload
    writeUnsigned 0 8

end Iamf.Bits
