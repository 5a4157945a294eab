import Iamf.BitFields

/-! `leb128(n)`, the variable-width integer. Writers always use the minimal width; the
reader takes any width up to eight groups. `UlebForm` lets the same reader be asked to
insist on the minimal width, which is how canonical input is told apart below. -/
namespace Iamf.Bits
open BitString TapeCodec

/-- Which widths of a value a reader accepts. -/
class UlebForm where
  accepts : (value size : Nat) → Bool

instance sourceForms : UlebForm := ⟨fun _ _ => true⟩

def maxLeb128Size : Nat := 8

def minimalLen (value : Nat) : Nat :=
  if value ≤ 0x7f then 1
  else if value ≤ 0x3fff then 2
  else if value ≤ 0x1fffff then 3
  else if value ≤ 0xfffffff then 4
  else 5

abbrev minimalForms : UlebForm := ⟨fun value size => size == minimalLen value⟩

def writeGroups (value : Nat) : (left shift : Nat) → Writer Unit
  | 0, _ => pure ()
  | left+1, shift => do
    let group := (value >>> shift) &&& 0x7f
    let byte := if left = 0 then group else group ||| 0x80
    writeUnsigned byte 8
    writeGroups value left (shift + 7)

def writeUleb128Fixed (value : UInt32) (size : UInt8) : Writer Unit := do
  let requested := size.toNat
  let w ← getWriter
  if requested = 0 ∨ requested > maxLeb128Size then throw (w.outputError (.leb128SizeInvalid size))
  else if minimalLen value.toNat > requested then throw (w.outputError .leb128ValueTooLarge)
  else writeGroups value.toNat requested 0

def writeUleb128Minimal (value : UInt32) : Writer Unit :=
  let len := minimalLen value.toNat
  writeUleb128Fixed value (if len < 256 then UInt8.ofNat len else 5)

section

variable [UlebForm]

def readGroups (start : Nat) : (left acc shift : Nat) → Reader UInt32
  | 0, _, _ => throw (inputError .leb128TooLong start)
  | left+1, acc, shift => do
    let byte ← readUnsigned 8
    let group := ((byte &&& 0x7f) <<< shift) % 2 ^ 64
    let acc := acc ||| group
    if byte &&& 0x80 = 0 then do
      ensure (acc ≤ u32Max) (inputError .leb128ValueTooLarge start)
      ensure (UlebForm.accepts acc (maxLeb128Size - left)) (inputError .leb128TooLong start)
      pure (UInt32.ofNat acc)
    else readGroups start left acc (shift + 7)

def readUleb128 : Reader UInt32 := do
  let start ← bytePosition
  readGroups start maxLeb128Size 0 0

end

def ulebBits : Nat → Nat → List Bool
  | 0, _ => []
  | n+1, v => bitsOf 8 (if n = 0 then v % 128 else v % 128 + 128) ++ ulebBits n (v / 128)

@[simp] theorem ulebBitsLength (n v : Nat) : (ulebBits n v).length = 8 * n := by
  induction n generalizing v with
  | zero => rfl
  | succ n ih => simp [ulebBits, ih]; omega

theorem lowSeven (v : Nat) : v &&& 0x7f = v % 128 := by
  rw [show (0x7f : Nat) = 2 ^ 7 - 1 from rfl, Nat.and_two_pow_sub_one_eq_mod]

theorem continuationBit {byte : Nat} (octet : byte < 256) : byte &&& 0x80 = 0 ↔ byte < 128 := by
  have bit := Nat.and_two_pow byte 7
  rw [show (0x80 : Nat) = 2 ^ 7 from rfl, bit, Nat.testBit_eq_decide_div_mod_eq]
  by_cases low : byte < 128
  · have zero : byte / 128 % 2 = 0 := by omega
    simp [zero, low]
  · have one : byte / 128 % 2 = 1 := by omega
    simp [one, low]

theorem addHighBit {group : Nat} (small : group < 128) : group ||| 0x80 = group + 128 := by
  have sum := Nat.two_pow_add_eq_or_of_lt (i := 7) (show group < 2 ^ 7 from small) 1
  rw [Nat.or_comm, show (0x80 : Nat) = 2 ^ 7 * 1 from rfl, ← sum]
  omega

theorem emitsGroups (value left shift : Nat) :
    Emits (writeGroups value left shift) (ulebBits left (value / 2 ^ shift)) := by
  induction left generalizing shift with
  | zero => exact emitsPure
  | succ left ih =>
    have group : (value >>> shift) &&& 0x7f = value / 2 ^ shift % 128 := by
      rw [lowSeven, Nat.shiftRight_eq_div_pow]
    have small : value / 2 ^ shift % 128 < 128 := Nat.mod_lt _ (by omega)
    have next := ih (shift + 7)
    rw [Nat.pow_add, ← Nat.div_div_eq_div_mul] at next
    unfold writeGroups ulebBits
    simp only [group, addHighBit small]
    exact emitsBind (emitsUnsigned (by omega) (by split <;> omega)) next

theorem minimalLenRange (value : Nat) : 1 ≤ minimalLen value ∧ minimalLen value ≤ 5 := by
  unfold minimalLen
  split_ifs <;> omega

theorem minimalLenFits {value : Nat} (small : value < 2 ^ 32) : value < 2 ^ (7 * minimalLen value) := by
  unfold minimalLen
  split_ifs <;> simp <;> omega

theorem minimalLenLeast {value n : Nat} (positive : 1 ≤ n) (fits : value < 2 ^ (7 * n)) :
    minimalLen value ≤ n := by
  have cases : n = 1 ∨ n = 2 ∨ n = 3 ∨ n = 4 ∨ 5 ≤ n := by omega
  have range := minimalLenRange value
  rcases cases with rfl | rfl | rfl | rfl | large
  · simp at fits; unfold minimalLen; split_ifs <;> omega
  · simp at fits; unfold minimalLen; split_ifs <;> omega
  · simp at fits; unfold minimalLen; split_ifs <;> omega
  · simp at fits; unfold minimalLen; split_ifs <;> omega
  · omega

def FixedWidth (v : UInt32) (size : UInt8) : Prop :=
  1 ≤ size.toNat ∧ size.toNat ≤ maxLeb128Size ∧ v.toNat < 2 ^ (7 * size.toNat)

theorem emitsFixed {v : UInt32} {size : UInt8} (width : FixedWidth v size) :
    Emits (writeUleb128Fixed v size) (ulebBits size.toNat v.toNat) := by
  obtain ⟨positive, enough, fits⟩ := width
  have least := minimalLenLeast positive fits
  intro w
  have groups := emitsGroups v.toNat size.toNat 0 w
  unfold writeUleb128Fixed
  rw [bindOf _ (getWriterOk w), if_neg (by omega), if_neg (by omega), groups]
  simp

theorem minimalWidth (v : UInt32) : FixedWidth v (UInt8.ofNat (minimalLen v.toNat)) ∧
    (UInt8.ofNat (minimalLen v.toNat)).toNat = minimalLen v.toNat := by
  have range := minimalLenRange v.toNat
  have width : (UInt8.ofNat (minimalLen v.toNat)).toNat = minimalLen v.toNat := by
    rw [UInt8.toNat_ofNat', Nat.mod_eq_of_lt (by omega)]
  refine ⟨?_, width⟩
  unfold FixedWidth
  rw [width]
  exact ⟨range.1, by simp only [maxLeb128Size]; omega, minimalLenFits v.toNat_lt⟩

theorem minimalIsFixed (v : UInt32) :
    writeUleb128Minimal v = writeUleb128Fixed v (UInt8.ofNat (minimalLen v.toNat)) := by
  have range := minimalLenRange v.toNat
  unfold writeUleb128Minimal
  simp only [show minimalLen v.toNat < 256 by omega, if_true]

theorem emitsUleb128 (value : UInt32) :
    Emits (writeUleb128Minimal value) (ulebBits (minimalLen value.toNat) value.toNat) := by
  obtain ⟨width, size⟩ := minimalWidth value
  have emits := emitsFixed width
  rwa [size, ← minimalIsFixed] at emits

theorem accumulate {acc shift : Nat} (byte : Nat) (below : acc < 2 ^ shift) (room : shift ≤ 49) :
    acc ||| (((byte &&& 0x7f) <<< shift) % 2 ^ 64) = acc + byte % 128 * 2 ^ shift := by
  have small : byte % 128 < 128 := Nat.mod_lt _ (by omega)
  have inside : byte % 128 * 2 ^ shift < 2 ^ 64 := by
    have pow : 2 ^ shift ≤ 2 ^ 49 := Nat.pow_le_pow_right (by omega) room
    have product : byte % 128 * 2 ^ shift ≤ 127 * 2 ^ 49 := Nat.mul_le_mul (by omega) pow
    omega
  rw [lowSeven, Nat.shiftLeft_eq, Nat.mod_eq_of_lt inside, Nat.or_comm, Nat.mul_comm,
    ← Nat.two_pow_add_eq_or_of_lt below]
  omega

section

variable [UlebForm]

theorem readsGroups (n v acc left shift φ start : Nat) (positive : 1 ≤ n) (enough : n ≤ left)
    (below : acc < 2 ^ shift) (passes : shift + 7 * left = 56) (fits : v < 2 ^ (7 * n))
    (register : acc + v * 2 ^ shift ≤ u32Max)
    (form : UlebForm.accepts (acc + v * 2 ^ shift) (maxLeb128Size - left + n) = true) :
    Reads φ (readGroups start left acc shift) (ulebBits n v) (UInt32.ofNat (acc + v * 2 ^ shift)) := by
  induction n generalizing v acc left shift φ with
  | zero => omega
  | succ n ih =>
    cases left with
    | zero => omega
    | succ left =>
      have octet : (if n = 0 then v % 128 else v % 128 + 128) < 256 := by split <;> omega
      have head := readsUnsigned φ (n := 8) (by omega) octet
      have grown := accumulate (if n = 0 then v % 128 else v % 128 + 128) below (by omega)
      have seven : (if n = 0 then v % 128 else v % 128 + 128) % 128 = v % 128 := by split <;> omega
      rw [seven] at grown
      unfold readGroups ulebBits
      refine readsBind head ?_
      simp only [grown, continuationBit octet]
      by_cases last : n = 0
      · subst last
        have fits : v < 128 := fits
        have whole : v % 128 = v := Nat.mod_eq_of_lt fits
        have size : maxLeb128Size - (left + 1) + (0 + 1) = maxLeb128Size - left := by
          simp only [maxLeb128Size]; omega
        rw [size] at form
        simp only [if_true, whole, fits, ulebBits, decide_eq_true register, form,
          ensureTrue]
        exact readsPure _ _
      · simp only [last, if_false, show ¬ v % 128 + 128 < 128 by omega]
        have pow : 2 ^ (shift + 7) = 2 ^ shift * 128 := by rw [Nat.pow_add]
        have total : acc + v % 128 * 2 ^ shift + v / 128 * 2 ^ (shift + 7) = acc + v * 2 ^ shift := by
          rw [pow]
          have parts := Nat.div_add_mod v 128
          calc acc + v % 128 * 2 ^ shift + v / 128 * (2 ^ shift * 128)
              = acc + (128 * (v / 128) + v % 128) * 2 ^ shift := by ring
            _ = acc + v * 2 ^ shift := by rw [parts]
        have next := ih (v / 128) (acc + v % 128 * 2 ^ shift) left (shift + 7)
          (φ + (bitsOf 8 (v % 128 + 128)).length) (by omega) (by omega)
          (by rw [pow]
              have : v % 128 * 2 ^ shift ≤ 127 * 2 ^ shift := Nat.mul_le_mul_right _ (by omega)
              omega)
          (by omega)
          (by rw [show 7 * (n + 1) = 7 * n + 7 by omega, Nat.pow_add] at fits; omega)
          (by rw [total]; exact register)
          (by rw [total]; rw [show maxLeb128Size - left + n = maxLeb128Size - (left + 1) + (n + 1) by
                simp only [maxLeb128Size]; omega]; exact form)
        rw [total] at next
        exact next

theorem readsUleb128 {n : Nat} {v : UInt32} (φ : Nat) (positive : 1 ≤ n) (enough : n ≤ maxLeb128Size)
    (fits : v.toNat < 2 ^ (7 * n)) (form : UlebForm.accepts v.toNat n = true) :
    Reads φ readUleb128 (ulebBits n v.toNat) v := by
  intro r tail offset split
  have register := v.toNat_lt
  have groups := readsGroups n v.toNat 0 maxLeb128Size 0 φ r.bytePos positive enough (by omega)
    (by simp [maxLeb128Size]) fits (by simp only [u32Max]; omega) (by simpa [maxLeb128Size] using form)
  unfold readUleb128
  rw [bindOf _ (bytePositionOk r)]
  simpa using groups r tail offset split

theorem consumesGroups (start left acc shift : Nat) (below : acc < 2 ^ shift)
    (passes : shift + 7 * left = 56) :
    Consumes (readGroups start left acc shift) fun u bs => ∃ n v, 1 ≤ n ∧ n ≤ left ∧ v < 2 ^ (7 * n) ∧
      bs = ulebBits n v ∧ u.toNat = acc + v * 2 ^ shift ∧
      UlebForm.accepts u.toNat (maxLeb128Size - left + n) = true := by
  induction left generalizing acc shift with
  | zero => exact consumesThrow _ _
  | succ left ih =>
    unfold readGroups
    refine consumesBind (consumesUnsigned 8) fun byte bs ⟨_, octet, bits⟩ => ?_
    have octet : byte < 256 := octet
    simp only [accumulate byte below (by omega), continuationBit octet]
    have pow : 2 ^ (shift + 7) = 2 ^ shift * 128 := by rw [Nat.pow_add]
    split
    · rename_i stop
      have whole : byte % 128 = byte := Nat.mod_eq_of_lt stop
      refine consumesEnsure fun register => consumesEnsure fun form => consumesPure ?_
      have register : acc + byte % 128 * 2 ^ shift ≤ u32Max := by simpa using register
      have value : (UInt32.ofNat (acc + byte % 128 * 2 ^ shift)).toNat = acc + byte % 128 * 2 ^ shift := by
        rw [UInt32.toNat_ofNat', Nat.mod_eq_of_lt (by simp only [u32Max] at register; omega)]
      refine ⟨1, byte, by omega, by omega, by simpa using stop, ?_, by rw [value, whole], ?_⟩
      · simp [ulebBits, bits, whole]
      · rw [value, show maxLeb128Size - (left + 1) + 1 = maxLeb128Size - left by
          simp only [maxLeb128Size]; omega]
        exact form
    · rename_i more
      have bound : acc + byte % 128 * 2 ^ shift < 2 ^ (shift + 7) := by
        rw [pow]
        have : byte % 128 * 2 ^ shift ≤ 127 * 2 ^ shift := Nat.mul_le_mul_right _ (by omega)
        omega
      refine consumesMono (ih _ _ bound (by omega)) fun u cs ⟨n, v, positive, enough, fits, tail, value, form⟩ => ?_
      have low : (byte % 128 + 128 * v) % 128 = byte % 128 := by omega
      have high : (byte % 128 + 128 * v) / 128 = v := by omega
      refine ⟨n + 1, byte % 128 + 128 * v, by omega, by omega, ?_, ?_, ?_, ?_⟩
      · rw [show 7 * (n + 1) = 7 * n + 7 by omega, Nat.pow_add]
        omega
      · rw [ulebBits, if_neg (by omega), low, high, bits, tail, show byte % 128 + 128 = byte by omega]
      · rw [value, pow]; ring
      · rw [show maxLeb128Size - (left + 1) + (n + 1) = maxLeb128Size - left + n by
          simp only [maxLeb128Size]; omega]
        exact form

theorem consumesUlebBits : Consumes readUleb128 fun v bs => ∃ n, 1 ≤ n ∧ n ≤ maxLeb128Size ∧
    v.toNat < 2 ^ (7 * n) ∧ bs = ulebBits n v.toNat ∧ UlebForm.accepts v.toNat n = true := by
  intro r v r' ok
  unfold readUleb128 at ok
  rw [bindOf _ (bytePositionOk r)] at ok
  obtain ⟨bs, tail, split, moved, n, u, positive, enough, fits, bits, value, form⟩ :=
    consumesGroups r.bytePos maxLeb128Size 0 0 (by omega) (by simp [maxLeb128Size]) r v r' ok
  have same : v.toNat = u := by simpa using value
  refine ⟨bs, tail, split, moved, n, positive, enough, by rw [same]; exact fits, by rw [same]; exact bits, ?_⟩
  simpa using form

def Canonical : Prop := ∀ value size, UlebForm.accepts value size = true → size = minimalLen value

theorem consumesUleb128 : Consumes readUleb128 fun v bs => Rewrites Canonical (writeUleb128Minimal v) bs := by
  refine consumesMono consumesUlebBits fun v bs ⟨n, positive, _, fits, bits, form⟩ => ?_
  have least := minimalLenLeast positive fits
  refine ⟨_, emitsUleb128 v, by rw [bits]; simp; omega, by rw [bits]; simp, fun canonical => ?_⟩
  rw [bits, canonical _ _ form]

end

theorem pairedUleb128 (φ : Nat) (v : UInt32) : Paired φ φ (writeUleb128Minimal v) readUleb128 v := by
  have range := minimalLenRange v.toNat
  refine .inr ⟨_, by simp, emitsUleb128 v, ?_⟩
  exact readsUleb128 φ range.1 (by simp only [maxLeb128Size]; omega) (minimalLenFits v.toNat_lt) rfl

theorem minimalCanonical : @Canonical minimalForms := by
  intro value size form
  exact of_decide_eq_true form

theorem hungryUleb128 [UlebForm] : Hungry readUleb128 := by
  intro r empty
  obtain ⟨e, r', failed⟩ := hungryUnsigned (n := 8) (by omega) r empty
  refine ⟨e, r', ?_⟩
  unfold readUleb128
  rw [bindOf _ (bytePositionOk r)]
  exact bindError _ failed

end Iamf.Bits
