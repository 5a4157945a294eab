import Iamf.Leb128

/-! The bytes of a `leb128(n)` field, and what the reader makes of any bytes in front of it. -/
namespace Iamf.Bits
open BitString TapeCodec ReadTape

inductive UlebBytes : Bytes → Nat → Prop where
  | last (byte : UInt8) (clear : byte.toNat < 128) : UlebBytes [byte] byte.toNat
  | more (byte : UInt8) {size : Bytes} {v : Nat} (set : 128 ≤ byte.toNat) (groups : UlebBytes size v) :
      UlebBytes (byte :: size) (byte.toNat - 128 + 128 * v)

def Continued (bytes : Bytes) : Prop := ∀ byte ∈ bytes, 128 ≤ byte.toNat

theorem ulebBytesBits {size : Bytes} {v : Nat} (uleb : UlebBytes size v) :
    1 ≤ size.length ∧ v < 2 ^ (7 * size.length) ∧ bytesBits size = ulebBits size.length v := by
  induction uleb with
  | last byte clear =>
    refine ⟨Nat.le_refl _, by simpa using clear, ?_⟩
    simp [ulebBits, bytesBits, byteBits, Nat.mod_eq_of_lt clear]
  | @more byte size v set groups ih =>
    obtain ⟨positive, fits, bits⟩ := ih
    have octet := byte.toNat_lt
    have low : (byte.toNat - 128 + 128 * v) % 128 + 128 = byte.toNat := by omega
    have high : (byte.toNat - 128 + 128 * v) / 128 = v := by omega
    refine ⟨by simp, ?_, ?_⟩
    · rw [List.length_cons, Nat.mul_succ, Nat.pow_add]
      omega
    · rw [bytesBitsCons, List.length_cons, ulebBits, if_neg (by omega), low, high, bits]
      rfl

theorem ulebBytesOf {n v : Nat} (positive : 1 ≤ n) (fits : v < 2 ^ (7 * n)) :
    ∃ size : Bytes, size.length = n ∧ UlebBytes size v := by
  induction n generalizing v with
  | zero => omega
  | succ n ih =>
    by_cases last : n = 0
    · subst last
      have small : v < 128 := fits
      have byte : (UInt8.ofNat v).toNat = v := by rw [UInt8.toNat_ofNat', Nat.mod_eq_of_lt (by omega)]
      refine ⟨[UInt8.ofNat v], rfl, ?_⟩
      have uleb := UlebBytes.last (UInt8.ofNat v) (by omega)
      rwa [byte] at uleb
    · rw [Nat.mul_succ, Nat.pow_add] at fits
      obtain ⟨size, length, groups⟩ := ih (v := v / 128) (by omega) (by omega)
      have byte : (UInt8.ofNat (v % 128 + 128)).toNat = v % 128 + 128 := by
        rw [UInt8.toNat_ofNat', Nat.mod_eq_of_lt (by omega)]
      refine ⟨UInt8.ofNat (v % 128 + 128) :: size, by rw [List.length_cons, length], ?_⟩
      have uleb := UlebBytes.more (UInt8.ofNat (v % 128 + 128)) (by omega) groups
      rwa [byte, Nat.add_sub_cancel, Nat.mod_add_div] at uleb

theorem ulebBytesIff {size : Bytes} {v : Nat} : UlebBytes size v ↔
    1 ≤ size.length ∧ v < 2 ^ (7 * size.length) ∧ bytesBits size = ulebBits size.length v := by
  constructor
  · exact ulebBytesBits
  · rintro ⟨positive, fits, bits⟩
    obtain ⟨size', length, uleb⟩ := ulebBytesOf positive fits
    have bits' := (ulebBytesBits uleb).2.2
    rw [length] at bits'
    cases bytesBitsInjective (bits.trans bits'.symm)
    exact uleb

theorem ulebBytesCases (k : Nat) (bytes : Bytes) :
    (∃ size v tail, bytes = size ++ tail ∧ UlebBytes size v ∧ size.length ≤ k) ∨
      (∃ front tail, bytes = front ++ tail ∧ front.length = k ∧ Continued front) ∨
      (bytes.length < k ∧ Continued bytes) := by
  induction k generalizing bytes with
  | zero => exact .inr (.inl ⟨[], bytes, rfl, rfl, by simp [Continued]⟩)
  | succ k ih =>
    cases bytes with
    | nil => exact .inr (.inr ⟨Nat.succ_pos _, by simp [Continued]⟩)
    | cons byte bytes =>
      by_cases clear : byte.toNat < 128
      · exact .inl ⟨[byte], _, bytes, rfl, .last byte clear, by simp⟩
      have set := Nat.not_lt.mp clear
      rcases ih bytes with ⟨size, v, tail, rfl, uleb, short⟩ | ⟨front, tail, rfl, length, continued⟩ | ⟨short, continued⟩
      · exact .inl ⟨byte :: size, _, tail, rfl, .more byte set uleb, by simpa using short⟩
      · exact .inr (.inl ⟨byte :: front, tail, rfl, by simpa using length,
          List.forall_mem_cons.mpr ⟨set, continued⟩⟩)
      · exact .inr (.inr ⟨by simpa using short, List.forall_mem_cons.mpr ⟨set, continued⟩⟩)

theorem readByteOk {r : BitCursor} {byte : UInt8} {bytes : Bytes} {tail : List Bool}
    (split : rest r = bytesBits (byte :: bytes) ++ tail) :
    readUnsigned 8 r = .ok byte.toNat (advance 8 r) ∧ rest (advance 8 r) = bytesBits bytes ++ tail := by
  rw [bytesBitsCons, List.append_assoc] at split
  have read := readsUnsigned (phase r) (n := 8) (by omega) byte.toNat_lt r (bytesBits bytes ++ tail)
    (by unfold phase; omega) split
  rw [bitsOfLength] at read
  refine ⟨read, ?_⟩
  rw [restAdvance _ _ (by rw [split]; simp), split, List.drop_left' (byteBitsLength byte)]

theorem readByteEnd {r : BitCursor} (empty : rest r = []) :
    ∃ e s, readUnsigned 8 r = .error e s ∧ e.kind = .unexpectedEndOfInput := by
  have none : r.bitsRemaining = 0 := by
    rw [← BitCursor.restLength]
    exact congrArg List.length empty
  refine ⟨inputError .unexpectedEndOfInput r.bytePosition, r, ?_, rfl⟩
  unfold readUnsigned
  rw [if_neg (by omega), if_pos (by omega)]

theorem groupsGrow {acc shift : Nat} (byte : UInt8) (below : acc < 2 ^ shift) :
    acc + byte.toNat % 128 * 2 ^ shift < 2 ^ (shift + 7) := by
  have part : byte.toNat % 128 * 2 ^ shift ≤ 127 * 2 ^ shift := Nat.mul_le_mul_right _ (by omega)
  rw [Nat.pow_add]
  omega

section

variable [UlebForm]

theorem readGroupsMore {start left acc shift : Nat} {r : BitCursor} {byte : UInt8} {bytes : Bytes} {tail : List Bool}
    (below : acc < 2 ^ shift) (passes : shift + 7 * (left + 1) = 56) (set : 128 ≤ byte.toNat)
    (split : rest r = bytesBits (byte :: bytes) ++ tail) : readGroups start (left + 1) acc shift r =
      readGroups start left (acc + byte.toNat % 128 * 2 ^ shift) (shift + 7) (advance 8 r) := by
  rw [readGroups, bindOf _ (readByteOk split).1]
  simp only [accumulate byte.toNat below (by omega), continuationBit byte.toNat_lt]
  rw [if_neg (by omega)]

theorem groupsTooLarge {size : Bytes} {v start left acc shift : Nat} {r : BitCursor} {tail : List Bool}
    (uleb : UlebBytes size v) (enough : size.length ≤ left) (below : acc < 2 ^ shift) (passes : shift + 7 * left = 56)
    (large : u32Max < acc + v * 2 ^ shift) (split : rest r = bytesBits size ++ tail) :
    ∃ s, readGroups start left acc shift r = .error (inputError .leb128ValueTooLarge start) s := by
  induction uleb generalizing left acc shift r with
  | last byte clear =>
    obtain ⟨left, rfl⟩ : ∃ k, left = k + 1 := ⟨left - 1, by simp at enough; omega⟩
    unfold readGroups
    rw [bindOf _ (readByteOk split).1]
    simp only [accumulate byte.toNat below (by omega), continuationBit byte.toNat_lt]
    rw [if_pos clear, Nat.mod_eq_of_lt clear, decide_eq_false (by omega)]
    exact ⟨_, bindError _ (ensureFalse _ _)⟩
  | @more byte size v set groups ih =>
    rw [List.length_cons] at enough
    obtain ⟨left, rfl⟩ : ∃ k, left = k + 1 := ⟨left - 1, by omega⟩
    have octet := byte.toNat_lt
    rw [readGroupsMore below passes set split]
    refine ih (by omega) (groupsGrow byte below) (by omega) ?_ (readByteOk split).2
    have low : byte.toNat % 128 = byte.toNat - 128 := by omega
    calc u32Max < acc + (byte.toNat - 128 + 128 * v) * 2 ^ shift := large
      _ = acc + byte.toNat % 128 * 2 ^ shift + v * 2 ^ (shift + 7) := by rw [low, Nat.pow_add]; ring

theorem groupsTooLong {front : Bytes} {start acc shift : Nat} {r : BitCursor} {tail : List Bool}
    (continued : Continued front) (below : acc < 2 ^ shift) (passes : shift + 7 * front.length = 56)
    (split : rest r = bytesBits front ++ tail) :
    ∃ s, readGroups start front.length acc shift r = .error (inputError .leb128TooLong start) s := by
  induction front generalizing acc shift r with
  | nil => exact ⟨r, rfl⟩
  | cons byte front ih =>
    obtain ⟨set, others⟩ := List.forall_mem_cons.mp continued
    rw [List.length_cons] at passes ⊢
    rw [readGroupsMore below passes set split]
    exact ih others (groupsGrow byte below) (by omega) (readByteOk split).2

theorem groupsEnd {bytes : Bytes} {start left acc shift : Nat} {r : BitCursor} (continued : Continued bytes)
    (short : bytes.length < left) (below : acc < 2 ^ shift) (passes : shift + 7 * left = 56)
    (split : rest r = bytesBits bytes) :
    ∃ e s, readGroups start left acc shift r = .error e s ∧ e.kind = .unexpectedEndOfInput := by
  induction bytes generalizing left acc shift r with
  | nil =>
    obtain ⟨left, rfl⟩ : ∃ k, left = k + 1 := ⟨left - 1, by simp at short; omega⟩
    obtain ⟨e, s, failed, kind⟩ := readByteEnd split
    exact ⟨e, s, bindError _ failed, kind⟩
  | cons byte bytes ih =>
    obtain ⟨set, others⟩ := List.forall_mem_cons.mp continued
    rw [List.length_cons] at short
    obtain ⟨left, rfl⟩ : ∃ k, left = k + 1 := ⟨left - 1, by omega⟩
    have split' : rest r = bytesBits (byte :: bytes) ++ [] := by rw [split, List.append_nil]
    rw [readGroupsMore below passes set split']
    exact ih others (by omega) (groupsGrow byte below) (by omega) (by rw [(readByteOk split').2, List.append_nil])

end

theorem ulebOk {size : Bytes} {v : Nat} {r : BitCursor} {tail : List Bool} (uleb : UlebBytes size v)
    (enough : size.length ≤ maxLeb128Size) (small : v ≤ u32Max) (split : rest r = bytesBits size ++ tail) :
    readUleb128 r = .ok (UInt32.ofNat v) (advance (8 * size.length) r) := by
  obtain ⟨positive, fits, bits⟩ := ulebBytesBits uleb
  have value : (UInt32.ofNat v).toNat = v := by
    rw [UInt32.toNat_ofNat', Nat.mod_eq_of_lt (by simp only [u32Max] at small; omega)]
  have reads := readsUleb128 (v := UInt32.ofNat v) (phase r) positive enough (by rwa [value]) rfl r tail
    (by unfold phase; omega) (by rw [value, ← bits]; exact split)
  rwa [ulebBitsLength] at reads

theorem ulebTooLarge {size : Bytes} {v : Nat} {r : BitCursor} {tail : List Bool} (uleb : UlebBytes size v)
    (enough : size.length ≤ maxLeb128Size) (large : u32Max < v) (split : rest r = bytesBits size ++ tail) :
    ∃ s, readUleb128 r = .error (inputError .leb128ValueTooLarge r.bytePosition) s := by
  unfold readUleb128
  rw [bindOf _ (bytePositionOk r)]
  exact groupsTooLarge uleb enough (by omega) (by simp [maxLeb128Size]) (by omega) split

theorem ulebTooLong {front : Bytes} {r : BitCursor} {tail : List Bool} (length : front.length = maxLeb128Size)
    (continued : Continued front) (split : rest r = bytesBits front ++ tail) :
    ∃ s, readUleb128 r = .error (inputError .leb128TooLong r.bytePosition) s := by
  unfold readUleb128
  rw [bindOf _ (bytePositionOk r), ← length]
  exact groupsTooLong continued (by omega) (by rw [length]; rfl) split

theorem ulebEnd {bytes : Bytes} {r : BitCursor} (continued : Continued bytes) (short : bytes.length < maxLeb128Size)
    (split : rest r = bytesBits bytes) :
    ∃ e s, readUleb128 r = .error e s ∧ e.kind = .unexpectedEndOfInput := by
  unfold readUleb128
  rw [bindOf _ (bytePositionOk r)]
  exact groupsEnd continued short (by omega) (by simp [maxLeb128Size]) split

end Iamf.Bits
