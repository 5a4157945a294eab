import Iamf.Leb128

/-! Signed fields as the source computes them, on an `i64` register: the width is checked and
the sign extended by shifting to the top of the register and arithmetically back. -/
namespace Iamf.Bits
open BitString TapeCodec

-- `value.wrapping_shl(pad).wrapping_shr(pad)`, for a `pad` below 64
def shiftedBack (value : BitVec 64) (pad : Nat) : BitVec 64 := (value <<< pad).sshiftRight pad

def writeI64 (value : Int64) (bits : Nat) : Writer Unit := do
  let w ← getWriter
  if bits = 0 ∨ bits > 64 then throw (w.outputError (.unsupportedWidth (widthByte bits)))
  else
    let pad := 64 - bits
    if shiftedBack value.toBitVec pad ≠ value.toBitVec then
      throw (w.outputError (.valueExceedsWidth (widthByte bits)))
    else
      let mask := BitVec.allOnes 64 >>> pad
      writeUnsigned (value.toBitVec &&& mask).toNat bits

def readI64 (bits : Nat) : Reader Int64 := do
  let start ← bytePosition
  if bits = 0 ∨ bits > 64 then throw (inputError (.unsupportedWidth (widthByte bits)) start)
  else do
    let raw ← readUnsigned bits
    pure (Int64.ofBitVec (shiftedBack (BitVec.ofNat 64 raw) (64 - bits)))

theorem signedFieldCast (v : Int) (n : Nat) : ((v % 2 ^ n).toNat : Int) = v % ((2 ^ n : Nat) : Int) := by
  rw [Int.toNat_of_nonneg (Int.emod_nonneg _ (by positivity))]
  push_cast
  rfl

theorem signedFieldSmall (v : Int) (n : Nat) : (v % 2 ^ n).toNat < 2 ^ n := by
  apply Int.ofNat_lt.mp
  rw [signedFieldCast]
  exact Int.emod_lt_of_pos v (Int.natCast_pos.mpr (Nat.two_pow_pos n))

section

variable {n : Nat} (width : 0 < n ∧ n ≤ 64)

include width

theorem registerSplit : 2 ^ 64 = 2 ^ (64 - n) * 2 ^ n := by
  rw [← Nat.pow_add, Nat.sub_add_cancel width.2]

theorem shiftedBackInt (value : BitVec 64) :
    (shiftedBack value (64 - n)).toInt = Int.bmod value.toNat (2 ^ n) := by
  have even : 2 ∣ 2 ^ n := dvd_pow_self 2 (by omega)
  have up : ((value.toNat <<< (64 - n) : Nat) : Int) = (2 ^ (64 - n) : Nat) * (value.toNat : Int) := by
    rw [Nat.shiftLeft_eq, Nat.mul_comm, Nat.cast_mul]
  unfold shiftedBack
  rw [BitVec.toInt_sshiftRight, BitVec.toInt_shiftLeft, up, registerSplit width,
    Int.mod_bmod_mul_of_pos _ _ (Nat.two_pow_pos _) even, Int.shiftRight_eq_div_pow]
  exact Int.mul_ediv_cancel_left _ (by simp)

theorem registerBmod (value : Int64) :
    Int.bmod value.toBitVec.toNat (2 ^ n) = Int.bmod value.toInt (2 ^ n) := by
  have divides : 2 ^ n ∣ 2 ^ 64 := Nat.pow_dvd_pow 2 width.2
  rw [← Int64.toInt_toBitVec, BitVec.toInt_eq_toNat_bmod, Int.bmod_bmod_of_dvd divides]

theorem registerMask (value : Int64) :
    (value.toBitVec &&& (BitVec.allOnes 64 >>> (64 - n))).toNat = (value.toInt % 2 ^ n).toNat := by
  have mask : (BitVec.allOnes 64 >>> (64 - n)).toNat = 2 ^ n - 1 := by
    rw [BitVec.toNat_ushiftRight, BitVec.toNat_allOnes, Nat.shiftRight_eq_div_pow, registerSplit width]
    have positive := Nat.two_pow_pos (64 - n)
    have other := Nat.two_pow_pos n
    rw [Nat.div_eq_iff positive, Nat.sub_mul, Nat.mul_comm (2 ^ n)]
    have more : 2 ^ (64 - n) * 1 ≤ 2 ^ (64 - n) * 2 ^ n := Nat.mul_le_mul_left _ other
    omega
  have same : ((value.toBitVec.toNat % 2 ^ n : Nat) : Int) = value.toInt % ((2 ^ n : Nat) : Int) := by
    have bmods := congrArg (fun m => m % ((2 ^ n : Nat) : Int)) (registerBmod width value)
    simp only [Int.bmod_emod] at bmods
    rw [← bmods]
    push_cast
    rfl
  apply Int.natCast_inj.mp
  rw [BitVec.toNat_and, mask, Nat.and_two_pow_sub_one_eq_mod, same, signedFieldCast]

end

theorem writeI64Signed (value : Int64) (bits : Nat) : writeI64 value bits = writeSigned value.toInt bits := by
  unfold writeI64 writeSigned
  congr 1
  funext w
  by_cases bad : bits = 0 ∨ bits > 64
  · rw [if_pos bad, if_pos bad]
  · have width : 0 < bits ∧ bits ≤ 64 := by omega
    have fits : shiftedBack value.toBitVec (64 - bits) ≠ value.toBitVec ↔
        Int.bmod value.toInt (2 ^ bits) ≠ value.toInt := by
      rw [not_iff_not, ← BitVec.toInt_inj, shiftedBackInt width, registerBmod width, Int64.toInt_toBitVec]
    simp only [if_neg bad, fits, registerMask width]

theorem readsI64 {v : Int64} {n : Nat} (φ : Nat) (width : 0 < n ∧ n ≤ 64)
    (fits : Int.bmod v.toInt (2 ^ n) = v.toInt) :
    Reads φ (readI64 n) (bitsOf n (v.toInt % 2 ^ n).toNat) v := by
  have small := signedFieldSmall v.toInt n
  have register := Nat.lt_of_lt_of_le small (Nat.pow_le_pow_right (show 0 < 2 by omega) width.2)
  have extended : Int64.ofBitVec (shiftedBack (BitVec.ofNat 64 (v.toInt % 2 ^ n).toNat) (64 - n)) = v := by
    apply Int64.toInt.inj
    rw [Int64.toInt_ofBitVec, shiftedBackInt width, BitVec.toNat_ofNat, Nat.mod_eq_of_lt register, signedFieldCast,
      Int.emod_bmod, fits]
  intro r tail offset split
  unfold readI64
  rw [bindOf _ (bytePositionOk r), if_neg (by omega)]
  exact readsReturn (readsUnsigned φ width.2 small) (by rw [extended]) r tail offset split

end Iamf.Bits
