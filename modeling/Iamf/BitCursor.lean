import Iamf.Error
import Iamf.TapeCodec

/-! The read half of the bit layer. Values of a `u64` register are naturals below
`2 ^ 64`; lengths are naturals. A cursor outside its data cannot be built. -/
namespace Iamf.Bits
open BitString TapeCodec

structure BitCursor where
  data : Bytes
  bytePos : Nat
  bitOff : Nat
  inOctet : bitOff < 8
  inData : 8 * bytePos + bitOff ≤ 8 * data.length
  deriving DecidableEq

abbrev Reader := EStateM Error BitCursor

namespace BitCursor

def new (data : Bytes) : BitCursor := ⟨data, 0, 0, by omega, by omega⟩

def bitsRemaining (c : BitCursor) : Nat := 8 * (c.data.length - c.bytePos) - c.bitOff

def bytesRemaining (c : BitCursor) : Nat := c.bitsRemaining / 8

def isByteAligned (c : BitCursor) : Bool := c.bitOff == 0

def bytePosition (c : BitCursor) : Nat := c.bytePos

def advanceOneBit (c : BitCursor) (inside : c.bytePos < c.data.length) : BitCursor :=
  let next := c.bitOff + 1
  if carry : next ≥ 8 then
    { c with bitOff := 0, bytePos := c.bytePos + 1, inOctet := by omega, inData := by omega }
  else
    { c with bitOff := next, inOctet := by omega, inData := by have := c.inOctet; omega }

def skipBytes (c : BitCursor) (len : Nat) (inside : len ≤ c.bytesRemaining) : BitCursor :=
  ⟨c.data, c.bytePos + len, c.bitOff, c.inOctet, by
    have inData := c.inData
    simp only [bytesRemaining, bitsRemaining] at inside
    omega⟩

def atBit (data : Bytes) (position : Nat) (inside : position ≤ 8 * data.length) : BitCursor :=
  ⟨data, position / 8, position % 8, Nat.mod_lt _ (by omega), by omega⟩

def position (c : BitCursor) : Nat := 8 * c.bytePos + c.bitOff

def rest (c : BitCursor) : List Bool := (bytesBits c.data).drop c.position

def advance (n : Nat) (c : BitCursor) : BitCursor :=
  atBit c.data (min (c.position + n) (8 * c.data.length)) (Nat.min_le_right _ _)

theorem atBitPosition (data : Bytes) (position : Nat) (inside : position ≤ 8 * data.length) :
    (atBit data position inside).position = position := by
  simp only [atBit, BitCursor.position]; omega

theorem eqOfPosition {c d : BitCursor} (data : c.data = d.data) (same : c.position = d.position) :
    c = d := by
  obtain ⟨cd, cb, co, ho, hi⟩ := c
  obtain ⟨dd, db, d_o, ho', hi'⟩ := d
  simp only [position] at data same
  subst data
  have bytes : cb = db := by omega
  have bits : co = d_o := by omega
  subst bytes bits
  rfl

theorem restLength (c : BitCursor) : c.rest.length = c.bitsRemaining := by
  have inside := c.inData
  simp only [rest, List.length_drop, bytesBitsLength, position, bitsRemaining]
  omega

theorem advancePosition {n : Nat} {c : BitCursor} (inside : n ≤ c.rest.length) :
    (advance n c).position = c.position + n := by
  have inData := c.inData
  simp only [restLength, bitsRemaining] at inside
  rw [advance, atBitPosition]
  simp only [position]
  omega

theorem advanceData (n : Nat) (c : BitCursor) : (advance n c).data = c.data := rfl

instance : ReadTape BitCursor where
  rest := rest
  advance := advance
  restAdvance n r inside := by
    simp only [rest, advancePosition inside, advanceData, List.drop_drop]
  advanceZero r := by
    refine eqOfPosition rfl ?_
    rw [advancePosition (Nat.zero_le _), Nat.add_zero]
  advanceAdd m n r inside := by
    have first : m ≤ r.rest.length := Nat.le_trans (Nat.le_add_right m n) inside
    have second : n ≤ (advance m r).rest.length := by
      have moved : (advance m r).rest = r.rest.drop m := by
        simp only [rest, advancePosition first, advanceData, List.drop_drop]
      rw [moved, List.length_drop]
      have total : m + n ≤ r.rest.length := inside
      omega
    refine eqOfPosition rfl ?_
    rw [advancePosition second, advancePosition first, advancePosition inside]
    omega

end BitCursor

theorem restNew (bytes : Bytes) : ReadTape.rest (BitCursor.new bytes) = bytesBits bytes ++ [] := (List.append_nil _).symm

theorem phaseIsBitOff (c : BitCursor) : phase c = c.bitOff := by
  have inside := c.inData
  have octet := c.inOctet
  change (8 - c.rest.length % 8) % 8 = c.bitOff
  rw [BitCursor.restLength, BitCursor.bitsRemaining]
  omega

def bytePosition : Reader Nat := fun c => .ok c.bytePosition c

def bytesRemaining : Reader Nat := fun c => .ok c.bytesRemaining c

theorem bytePositionOk (c : BitCursor) : bytePosition c = .ok c.bytePos c := rfl

theorem bytesRemainingOk (c : BitCursor) : bytesRemaining c = .ok c.bytesRemaining c := rfl

def inputError (kind : ErrorKind) (offset : Nat) : Error := ⟨kind, .inputOffset offset⟩

-- `u8::try_from(bits).unwrap_or(u8::MAX)`, the width an error reports
def widthByte (bits : Nat) : UInt8 := if bits < 256 then UInt8.ofNat bits else 255

def readBit : Reader Bool := fun c =>
  match found : c.data[c.bytePos]? with
  | none => .error (inputError .unexpectedEndOfInput c.bytePosition) c
  | some byte =>
    let shift := 7 - c.bitOff
    let bit := (byte.toNat >>> shift) &&& 1 == 1
    .ok bit (c.advanceOneBit (List.getElem?_eq_some_iff.mp found).1)

def readBits : Nat → Nat → Reader Nat
  | 0, acc => pure acc
  | n+1, acc => do
    let bit ← readBit
    readBits n ((acc <<< 1) % 2 ^ 64 ||| bit.toNat)

def readUnsigned (bits : Nat) : Reader Nat := fun c =>
  let start := c.bytePosition
  if bits > 64 then .error (inputError (.unsupportedWidth (widthByte bits)) start) c
  else if bits > c.bitsRemaining then .error (inputError .unexpectedEndOfInput start) c
  else readBits bits 0 c

-- read `bits` (1..=64) as two's complement: shifting the field to the top of an `i64` and arithmetically back keeps
-- the representative of `raw` modulo `2 ^ bits` nearest zero
def readSigned (bits : Nat) : Reader Int := do
  let start ← bytePosition
  if bits = 0 ∨ bits > 64 then throw (inputError (.unsupportedWidth (widthByte bits)) start)
  else do
    let raw ← readUnsigned bits
    pure (Int.bmod raw (2 ^ bits))

def readBool : Reader Bool := do
  let bit ← readUnsigned 1
  pure (bit == 1)

def readU8 (bits : Nat) : Reader UInt8 := do
  let value ← readUnsigned bits
  pure (if value < 2 ^ 8 then UInt8.ofNat value else 0)

def readU16 (bits : Nat) : Reader UInt16 := do
  let value ← readUnsigned bits
  pure (if value < 2 ^ 16 then UInt16.ofNat value else 0)

def readU32 (bits : Nat) : Reader UInt32 := do
  let value ← readUnsigned bits
  pure (if value < 2 ^ 32 then UInt32.ofNat value else 0)

def readU64 (bits : Nat) : Reader UInt64 := do
  let value ← readUnsigned bits
  pure (UInt64.ofNat value)

def readArray : (n : Nat) → Reader {bytes : Bytes // bytes.length = n}
  | 0 => pure ⟨[], rfl⟩
  | n+1 => do
    let byte ← readU8 8
    let rest ← readArray n
    pure ⟨byte :: rest.val, by rw [List.length_cons, rest.property]⟩

def readI16 : Reader Int16 := do
  let value ← readSigned 16
  pure (if -32768 ≤ value ∧ value ≤ 32767 then Int16.ofInt value else 0)

def maxStringBytes : Nat := 128

def readStringFrom (start : Nat) : Nat → Bytes → Reader Bytes
  | 0, _ => throw (inputError .stringNotTerminated start)
  | room+1, out => do
    let value ← readUnsigned 8
    let byte := UInt8.ofNat (value &&& 0xff)
    if byte = 0 then pure (out ++ [byte]) else readStringFrom start room (out ++ [byte])

def readString : Reader Bytes := do
  let start ← bytePosition
  readStringFrom start maxStringBytes []

def readUint8Span (len : Nat) : Reader Bytes := fun c =>
  let start := c.bytePosition
  if c.isByteAligned = false then .error (inputError .notByteAligned start) c
  else if short : len > c.bytesRemaining then .error (inputError .unexpectedEndOfInput start) c
  else .ok ((c.data.drop c.bytePos).take len) (c.skipBytes len (Nat.le_of_not_lt short))

def subReader (len : Nat) : Reader BitCursor := do
  let span ← readUint8Span len
  pure (BitCursor.new span)

end Iamf.Bits
