import Iamf.Leb128Field

/-! The byte strings the `leb128(n)` reader takes, and the widths the writer does. -/
namespace Iamf.Bits
open BitString TapeCodec ReadTape

def groupsValue : Bytes → Nat
  | [] => 0
  | byte :: bytes => byte.toNat % 128 + 128 * groupsValue bytes

def lastGroup (bytes : Bytes) : Option Nat := bytes.findIdx? fun byte => byte.toNat < 0x80

theorem lastGroupClear {byte : UInt8} (bytes : Bytes) (clear : byte.toNat < 128) :
    lastGroup (byte :: bytes) = some 0 := by
  simp [lastGroup, List.findIdx?_cons, clear]

theorem lastGroupSet {byte : UInt8} (bytes : Bytes) (set : 128 ≤ byte.toNat) :
    lastGroup (byte :: bytes) = (lastGroup bytes).map (· + 1) := by
  simp [lastGroup, List.findIdx?_cons, set]

theorem ulebBytesGroups {size : Bytes} {v : Nat} (uleb : UlebBytes size v) (tail : Bytes) :
    lastGroup (size ++ tail) = some (size.length - 1) ∧ groupsValue size = v := by
  induction uleb with
  | last byte clear =>
    refine ⟨lastGroupClear tail clear, ?_⟩
    simp [groupsValue, Nat.mod_eq_of_lt clear]
  | @more byte size v set groups ih =>
    obtain ⟨stop, value⟩ := ih
    have positive := (ulebBytesBits groups).1
    have octet := byte.toNat_lt
    constructor
    · rw [List.cons_append, lastGroupSet _ set, stop, Option.map_some, List.length_cons]
      congr 1
      omega
    · rw [groupsValue, value, show byte.toNat % 128 = byte.toNat - 128 by omega]

theorem ulebBytesTake {bytes : Bytes} {i : Nat} (stop : lastGroup bytes = some i) :
    UlebBytes (bytes.take (i + 1)) (groupsValue (bytes.take (i + 1))) ∧ i < bytes.length := by
  induction bytes generalizing i with
  | nil => cases stop
  | cons byte bytes ih =>
    by_cases clear : byte.toNat < 128
    · rw [lastGroupClear bytes clear] at stop
      cases stop
      have uleb := UlebBytes.last byte clear
      simpa [groupsValue, Nat.mod_eq_of_lt clear] using uleb
    · have set := Nat.not_lt.mp clear
      rw [lastGroupSet bytes set, Option.map_eq_some_iff] at stop
      obtain ⟨k, stop, rfl⟩ := stop
      obtain ⟨groups, inside⟩ := ih stop
      have octet := byte.toNat_lt
      have uleb := UlebBytes.more byte set groups
      refine ⟨?_, by simpa using inside⟩
      rw [List.take_succ_cons, groupsValue, show byte.toNat % 128 = byte.toNat - 128 by omega]
      exact uleb

theorem readUlebIff {r s : BitCursor} {bytes : Bytes} {tail : List Bool} {v : UInt32}
    (split : rest r = bytesBits bytes ++ tail) (short : tail.length < 8) :
    readUleb128 r = .ok v s ↔ ∃ i, i < maxLeb128Size ∧ lastGroup bytes = some i ∧
      v.toNat = groupsValue (bytes.take (i + 1)) ∧ s = advance (8 * (i + 1)) r := by
  constructor
  · intro ok
    obtain ⟨bs, behind, front, moved, n, positive, enough, fits, bits, _⟩ := consumesUlebBits r v s ok
    have length : bs.length = 8 * n := by rw [bits, ulebBitsLength]
    have whole := congrArg List.length (split.symm.trans front)
    simp only [List.length_append, bytesBitsLength] at whole
    have inside : n ≤ bytes.length := by omega
    have size : (bytes.take n).length = n := List.length_take_of_le inside
    have field : bytesBits (bytes.take n) = ulebBits n v.toNat := by
      have cut := congrArg (List.take (8 * n)) (split.symm.trans front)
      rw [List.take_append_of_le_length (by rw [bytesBitsLength]; omega), bytesBitsTake,
        List.take_left' length, bits] at cut
      exact cut
    have uleb : UlebBytes (bytes.take n) v.toNat := by
      refine ulebBytesIff.mpr ⟨by omega, ?_, ?_⟩
      · rwa [size]
      · rwa [size]
    obtain ⟨stop, value⟩ := ulebBytesGroups uleb (bytes.drop n)
    rw [List.take_append_drop, size] at stop
    have next : n - 1 + 1 = n := by omega
    exact ⟨n - 1, by omega, stop, by rw [next, value], by rw [moved, length, next]⟩
  · rintro ⟨i, enough, stop, value, rfl⟩
    obtain ⟨uleb, inside⟩ := ulebBytesTake stop
    have size : (bytes.take (i + 1)).length = i + 1 := List.length_take_of_le inside
    rw [← value] at uleb
    have register := v.toNat_lt
    have here : rest r = bytesBits (bytes.take (i + 1)) ++ (bytesBits (bytes.drop (i + 1)) ++ tail) := by
      rw [← List.append_assoc, ← bytesBitsAppend, List.take_append_drop, split]
    have read := ulebOk uleb (by omega) (by simp only [u32Max]; omega) here
    rwa [UInt32.ofNat_toNat, size] at read

theorem readUlebAccepts (bytes : Bytes) : (∃ v s, readUleb128 (.new bytes) = .ok v s) ↔
    ∃ i, i < 8 ∧ lastGroup bytes = some i ∧ groupsValue (bytes.take (i + 1)) ≤ u32Max := by
  constructor
  · rintro ⟨v, s, ok⟩
    obtain ⟨i, enough, stop, value, _⟩ := (readUlebIff (restNew bytes) (by simp)).mp ok
    have register := v.toNat_lt
    exact ⟨i, enough, stop, by rw [← value, u32Max]; omega⟩
  · rintro ⟨i, enough, stop, small⟩
    refine ⟨UInt32.ofNat (groupsValue (bytes.take (i + 1))), _,
      (readUlebIff (restNew bytes) (by simp)).mpr ⟨i, enough, stop, ?_, rfl⟩⟩
    rw [UInt32.toNat_ofNat', Nat.mod_eq_of_lt (by simp only [u32Max] at small; omega)]

theorem advanceNew {n : Nat} {bytes : Bytes} (inside : n ≤ bytes.length) :
    (advance (8 * n) (BitCursor.new bytes)).bytePos = n ∧ (advance (8 * n) (BitCursor.new bytes)).bitOff = 0 := by
  change (BitCursor.advance _ _).bytePos = n ∧ (BitCursor.advance _ _).bitOff = 0
  simp only [BitCursor.advance, BitCursor.atBit, BitCursor.position, BitCursor.new]
  omega

theorem minimalLenIff {value n : Nat} (small : value < 2 ^ 32) (positive : 1 ≤ n) :
    minimalLen value ≤ n ↔ value < 2 ^ (7 * n) := by
  constructor
  · intro enough
    exact Nat.lt_of_lt_of_le (minimalLenFits small) (Nat.pow_le_pow_right (by omega) (by omega))
  · exact minimalLenLeast positive

theorem fixedRejects {v : UInt32} {size : UInt8} (width : ¬ FixedWidth v size) (w : BitWriter) :
    ∃ e, writeUleb128Fixed v size w = .error e w := by
  unfold writeUleb128Fixed
  rw [bindOf _ (getWriterOk w)]
  by_cases range : size.toNat = 0 ∨ size.toNat > maxLeb128Size
  · rw [if_pos range]
    exact ⟨_, rfl⟩
  · have wide : minimalLen v.toNat > size.toNat := by
      rw [gt_iff_lt, ← Nat.not_le, minimalLenIff v.toNat_lt (by omega)]
      intro fits
      exact width ⟨by omega, by omega, fits⟩
    rw [if_neg range, if_pos wide]
    exact ⟨_, rfl⟩

theorem fixedWidthOf {v : UInt32} {size : UInt8} {w w' : BitWriter} (ok : writeUleb128Fixed v size w = .ok () w') :
    FixedWidth v size := by
  by_contra width
  obtain ⟨e, failed⟩ := fixedRejects width w
  rw [failed] at ok
  contradiction

theorem fixedField {v : UInt32} {size : UInt8} (width : FixedWidth v size) :
    ∃ field : Bytes, field.length = size.toNat ∧ Emits (writeUleb128Fixed v size) (bytesBits field) ∧
      ∀ r tail, rest r = bytesBits field ++ tail →
        readUleb128 r = .ok v (advance (8 * field.length) r) := by
  have emits := emitsFixed width
  obtain ⟨positive, enough, fits⟩ := width
  obtain ⟨field, length, uleb⟩ := ulebBytesOf positive fits
  have bits := (ulebBytesBits uleb).2.2
  rw [length] at bits
  have register := v.toNat_lt
  refine ⟨field, length, by rwa [bits], fun r tail split => ?_⟩
  have read := ulebOk uleb (by omega) (by simp only [u32Max]; omega) split
  rwa [UInt32.ofNat_toNat] at read

theorem shortestField {v : UInt32} {field other : Bytes} {s : BitCursor}
    (bits : bytesBits field = ulebBits (minimalLen v.toNat) v.toNat)
    (ok : readUleb128 (.new other) = .ok v s) : other = field ∨ field.length < other.length := by
  have length := congrArg List.length bits
  rw [bytesBitsLength, ulebBitsLength] at length
  obtain ⟨i, _, stop, value, _⟩ := (readUlebIff (restNew other) (by simp)).mp ok
  obtain ⟨uleb, inside⟩ := ulebBytesTake stop
  obtain ⟨_, fits, groups⟩ := ulebBytesBits uleb
  have size : (other.take (i + 1)).length = i + 1 := List.length_take_of_le inside
  rw [← value, size] at fits groups
  have least := minimalLenLeast (by omega) fits
  by_cases longer : field.length < other.length
  · exact .inr longer
  · have whole : other.take (i + 1) = other := List.take_of_length_le (by omega)
    have same : minimalLen v.toNat = i + 1 := by omega
    rw [whole, ← same, ← bits] at groups
    exact .inl (bytesBitsInjective groups)

theorem leb128Exact :
    (∀ bytes : Bytes,
      ((∃ v s, readUleb128 (.new bytes) = .ok v s) ↔ ∃ i, i < 8 ∧
        lastGroup bytes = some i ∧ groupsValue (bytes.take (i + 1)) ≤ u32Max) ∧
      ∀ v s, readUleb128 (.new bytes) = .ok v s → ∃ i, lastGroup bytes = some i ∧
        v.toNat = groupsValue (bytes.take (i + 1)) ∧ s.data = bytes ∧ s.bytePos = i + 1 ∧ s.bitOff = 0) ∧
    (∀ (v : UInt32) (size : UInt8),
      (∀ w, (∃ w', writeUleb128Fixed v size w = .ok () w') ↔
        1 ≤ size.toNat ∧ size.toNat ≤ 8 ∧ v.toNat < 2 ^ (7 * size.toNat)) ∧
      ∀ w w', writeUleb128Fixed v size w = .ok () w' → ∃ field : Bytes, field.length = size.toNat ∧
        w'.toBits = w.toBits ++ bytesBits field ∧ ∀ r tail, rest r = bytesBits field ++ tail →
          readUleb128 r = .ok v (advance (8 * field.length) r)) ∧
    ∀ v : UInt32, ∃ field : Bytes, finishWriter (writeUleb128Minimal v) = .ok field ∧
      (∃ s, readUleb128 (.new field) = .ok v s ∧ s.bytePos = field.length ∧ s.bitOff = 0) ∧
      ∀ other s, readUleb128 (.new other) = .ok v s → other = field ∨ field.length < other.length := by
  refine ⟨fun bytes => ⟨readUlebAccepts bytes, fun v s ok => ?_⟩, fun v size => ⟨fun w => ?_, fun w w' ok => ?_⟩,
    fun v => ?_⟩
  · obtain ⟨i, _, stop, value, moved⟩ := (readUlebIff (restNew bytes) (by simp)).mp ok
    obtain ⟨_, inside⟩ := ulebBytesTake stop
    have position := advanceNew (Nat.succ_le_of_lt inside)
    rw [moved]
    exact ⟨i, stop, value, rfl, position⟩
  · constructor
    · rintro ⟨w', ok⟩
      exact fixedWidthOf ok
    · intro width
      exact ⟨_, emitsFixed width w⟩
  · obtain ⟨field, length, emits, reads⟩ := fixedField (fixedWidthOf ok)
    rw [emits w] at ok
    cases ok
    exact ⟨field, length, BitWriter.toBitsAppend _ _, reads⟩
  · obtain ⟨width, size⟩ := minimalWidth v
    obtain ⟨field, length, emits, reads⟩ := fixedField width
    have bits := emitsUnique emits (emitsFixed width)
    rw [size] at bits
    refine ⟨field, finishWriterEmits (by rwa [minimalIsFixed]), ⟨_, reads _ [] (restNew field), ?_⟩,
      fun other s ok => shortestField bits ok⟩
    exact advanceNew (Nat.le_refl _)

end Iamf.Bits
