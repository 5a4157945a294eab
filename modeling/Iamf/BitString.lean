import Mathlib

/-! Bit strings, most significant bit first, and the bytes they pack into.
Plain arithmetic: no reader, writer or stream format is assumed here. -/
namespace Iamf.BitString

abbrev Bytes := List UInt8

def bitsOf : Nat → Nat → List Bool
  | 0, _ => []
  | n+1, v => v.testBit n :: bitsOf n v

def valueOf : List Bool → Nat
  | [] => 0
  | b :: bs => b.toNat * 2 ^ bs.length + valueOf bs

@[simp] theorem bitsOfLength (n v : Nat) : (bitsOf n v).length = n := by
  induction n with
  | zero => rfl
  | succ n ih => simp [bitsOf, ih]

theorem valueOfLt (bs : List Bool) : valueOf bs < 2 ^ bs.length := by
  induction bs with
  | nil => simp [valueOf]
  | cons b bs ih =>
    simp only [valueOf, List.length_cons, Nat.pow_succ]
    cases b <;> simp <;> omega

theorem valueOfBitsOf (n v : Nat) : valueOf (bitsOf n v) = v % 2 ^ n := by
  induction n with
  | zero => simp [bitsOf, valueOf, Nat.mod_one]
  | succ n ih =>
    simp only [bitsOf, valueOf, bitsOfLength, ih, Nat.mod_pow_succ, Nat.toNat_testBit]
    ring

theorem bitsOfMod (n v : Nat) : bitsOf n (v % 2 ^ n) = bitsOf n v := by
  have shorter : ∀ m, m ≤ n → bitsOf m (v % 2 ^ n) = bitsOf m v := by
    intro m inside
    induction m with
    | zero => rfl
    | succ m ih =>
      have low : m < n := by omega
      simp [bitsOf, ih (by omega), Nat.testBit_mod_two_pow, low]
  exact shorter n (Nat.le_refl n)

theorem bitsOfValueOf (bs : List Bool) : bitsOf bs.length (valueOf bs) = bs := by
  induction bs with
  | nil => rfl
  | cons b bs ih =>
    have small := valueOfLt bs
    have head : (valueOf (b :: bs)).testBit bs.length = b := by
      simp only [valueOf, Nat.testBit_eq_decide_div_mod_eq]
      rw [Nat.mul_comm, Nat.mul_add_div (Nat.two_pow_pos _), Nat.div_eq_of_lt small]
      cases b <;> simp
    have tail : bitsOf bs.length (valueOf (b :: bs)) = bs := by
      rw [← bitsOfMod]
      simp only [valueOf, Nat.mul_add_mod_self_right, Nat.mod_eq_of_lt small, ih]
    simp only [List.length_cons, bitsOf, head, tail]

theorem bitsOfUnique {n : Nat} {bs : List Bool} (length : bs.length = n) :
    bs = bitsOf n (valueOf bs) := by
  subst length
  exact (bitsOfValueOf bs).symm

theorem bitsOfSplit (m n v : Nat) : bitsOf (m + n) v = bitsOf m (v / 2 ^ n) ++ bitsOf n v := by
  induction m with
  | zero => simp [bitsOf]
  | succ m ih =>
    have head : v.testBit (m + n) = (v / 2 ^ n).testBit m := by
      simp [Nat.testBit_div_two_pow, Nat.add_comm]
    rw [show m + 1 + n = (m + n) + 1 by omega]
    simp only [bitsOf, ih, head, List.cons_append]

def byteBits (b : UInt8) : List Bool := bitsOf 8 b.toNat

def bytesBits (bytes : Bytes) : List Bool := bytes.flatMap byteBits

@[simp] theorem byteBitsLength (b : UInt8) : (byteBits b).length = 8 := by simp [byteBits]

@[simp] theorem bytesBitsNil : bytesBits [] = [] := rfl

@[simp] theorem bytesBitsCons (b : UInt8) (bytes : Bytes) :
    bytesBits (b :: bytes) = byteBits b ++ bytesBits bytes := rfl

@[simp] theorem bytesBitsAppend (as bs : Bytes) :
    bytesBits (as ++ bs) = bytesBits as ++ bytesBits bs := by
  simp [bytesBits]

@[simp] theorem bytesBitsLength (bytes : Bytes) : (bytesBits bytes).length = 8 * bytes.length := by
  induction bytes with
  | nil => rfl
  | cons b bytes ih => simp [ih]; omega

theorem valueOfByteBits (b : UInt8) : valueOf (byteBits b) = b.toNat := by
  rw [byteBits, valueOfBitsOf]
  exact Nat.mod_eq_of_lt b.toNat_lt

theorem byteBitsInjective {a b : UInt8} (same : byteBits a = byteBits b) : a = b := by
  have values := congrArg valueOf same
  rw [valueOfByteBits, valueOfByteBits] at values
  exact UInt8.toNat_inj.mp values

theorem bytesBitsCancel {as bs : Bytes} {xs ys : List Bool} (lengths : as.length = bs.length)
    (same : bytesBits as ++ xs = bytesBits bs ++ ys) : as = bs ∧ xs = ys := by
  induction as generalizing bs with
  | nil =>
    have empty : bs = [] := List.length_eq_zero_iff.mp lengths.symm
    subst empty
    exact ⟨rfl, by simpa using same⟩
  | cons a as ih =>
    cases bs with
    | nil => simp at lengths
    | cons b bs =>
      simp only [bytesBitsCons, List.append_assoc] at same
      obtain ⟨head, tail⟩ := List.append_inj same (by simp)
      obtain ⟨rest, last⟩ := ih (by simpa using lengths) tail
      exact ⟨by rw [byteBitsInjective head, rest], last⟩

theorem bytesBitsInjective {as bs : Bytes} (same : bytesBits as = bytesBits bs) : as = bs := by
  have lengths := congrArg List.length same
  simp only [bytesBitsLength] at lengths
  exact (@bytesBitsCancel as bs [] [] (by omega) (by simpa using same)).1

theorem bytesBitsDrop (bytes : Bytes) (n : Nat) :
    (bytesBits bytes).drop (8 * n) = bytesBits (bytes.drop n) := by
  induction n generalizing bytes with
  | zero => simp
  | succ n ih =>
    cases bytes with
    | nil => simp
    | cons b bytes =>
      rw [show 8 * (n + 1) = 8 + 8 * n by omega, ← List.drop_drop]
      simp only [bytesBitsCons, List.drop_succ_cons]
      rw [List.drop_left' (byteBitsLength b), ih]

theorem bytesBitsTake (bytes : Bytes) (n : Nat) :
    (bytesBits bytes).take (8 * n) = bytesBits (bytes.take n) := by
  induction n generalizing bytes with
  | zero => simp
  | succ n ih =>
    cases bytes with
    | nil => simp
    | cons b bytes =>
      rw [show 8 * (n + 1) = 8 + 8 * n by omega]
      simp only [bytesBitsCons, List.take_succ_cons]
      rw [List.take_append, byteBitsLength, show 8 + 8 * n - 8 = 8 * n by omega, ih,
        List.take_of_length_le (by simp)]

def packBits : Nat → List Bool → Bytes
  | 0, _ => []
  | n+1, bs => UInt8.ofNat (valueOf (bs.take 8)) :: packBits n (bs.drop 8)

theorem packBitsExact (n : Nat) (bs : List Bool) (length : bs.length = 8 * n) :
    bytesBits (packBits n bs) = bs := by
  induction n generalizing bs with
  | zero => simpa [packBits] using (List.length_eq_zero_iff.mp (by simpa using length)).symm
  | succ n ih =>
    have size : (bs.take 8).length = 8 := by simp; omega
    have small := valueOfLt (bs.take 8)
    rw [size] at small
    have head : byteBits (UInt8.ofNat (valueOf (bs.take 8))) = bs.take 8 := by
      rw [byteBits, UInt8.toNat_ofNat', Nat.mod_eq_of_lt small]
      exact (bitsOfUnique size).symm
    simp only [packBits, bytesBitsCons, head, ih (bs.drop 8) (by simp; omega)]
    exact List.take_append_drop 8 bs

end Iamf.BitString
