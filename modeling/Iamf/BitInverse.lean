import Iamf.SignedRegister

/-! Sequences of primitive writes and the reads that mirror them. A read is told the kind
and the width of its field, a byte span its length, and nothing about the value. -/
namespace Iamf.Bits
open BitString TapeCodec ReadTape

inductive Primitive where
  | unsigned (value : UInt64) (bits : Nat)
  | signed (value : Int64) (bits : Nat)
  | bool (value : Bool)
  | uleb128 (value : UInt32)
  | string (payload : Bytes)
  | bytes (span : Bytes)
  deriving DecidableEq

inductive PrimitiveRead where
  | unsigned (bits : Nat)
  | signed (bits : Nat)
  | bool
  | uleb128
  | string
  | bytes (len : Nat)
  deriving DecidableEq

namespace Primitive

def write : Primitive → Writer Unit
  | .unsigned value bits => writeUnsigned value.toNat bits
  | .signed value bits => writeI64 value bits
  | .bool value => writeBool value
  | .uleb128 value => writeUleb128Minimal value
  | .string payload => writeString payload
  | .bytes span => writeBytes span

def mirror : Primitive → PrimitiveRead
  | .unsigned _ bits => .unsigned bits
  | .signed _ bits => .signed bits
  | .bool _ => .bool
  | .uleb128 _ => .uleb128
  | .string _ => .string
  | .bytes span => .bytes span.length

def readBack : Primitive → Primitive
  | .string payload => .string (payload ++ [0])
  | field => field

def isSpan : Primitive → Bool
  | .bytes _ => true
  | _ => false

end Primitive

def PrimitiveRead.read : PrimitiveRead → Reader Primitive
  | .unsigned bits => do
    let value ← readUnsigned bits
    pure (.unsigned (UInt64.ofNat value) bits)
  | .signed bits => do
    let value ← readI64 bits
    pure (.signed value bits)
  | .bool => do
    let value ← readBool
    pure (.bool value)
  | .uleb128 => do
    let value ← readUleb128
    pure (.uleb128 value)
  | .string => do
    let bytes ← readString
    pure (.string bytes)
  | .bytes len => do
    let span ← readUint8Span len
    pure (.bytes span)

def readPrimitives : List PrimitiveRead → Reader (List Primitive)
  | [] => pure []
  | read :: reads => do
    let field ← read.read
    let fields ← readPrimitives reads
    pure (field :: fields)

def spansAligned : List Primitive → BitWriter → Bool
  | [], _ => true
  | field :: fields, w => (!field.isSpan || w.isByteAligned) &&
    match field.write w with
    | .ok () w' => spansAligned fields w'
    | .error _ _ => false

def Rejects (g : Writer Unit) : Prop := ∀ w, ∃ e, g w = .error e w

theorem rejectsUnsigned {v n : Nat} (bad : n > 64 ∨ n < 64 ∧ v ≥ 2 ^ n) : Rejects (writeUnsigned v n) := by
  intro w
  unfold writeUnsigned
  rw [bindOf _ (getWriterOk w)]
  by_cases wide : n > 64
  · rw [if_pos wide]
    exact ⟨_, rfl⟩
  · rw [if_neg wide, if_pos (bad.resolve_left wide)]
    exact ⟨_, rfl⟩

theorem rejectsSigned {v : Int} {n : Nat} (bad : (n = 0 ∨ n > 64) ∨ Int.bmod v (2 ^ n) ≠ v) :
    Rejects (writeSigned v n) := by
  intro w
  unfold writeSigned
  rw [bindOf _ (getWriterOk w)]
  by_cases width : n = 0 ∨ n > 64
  · rw [if_pos width]
    exact ⟨_, rfl⟩
  · rw [if_neg width, if_pos (bad.resolve_left width)]
    exact ⟨_, rfl⟩

theorem rejectsString {payload : Bytes} (bad : payload.length + 1 > 128 ∨ (0 : UInt8) ∈ payload) :
    Rejects (writeString payload) := by
  intro w
  unfold writeString
  rw [bindOf _ (getWriterOk w)]
  by_cases long : payload.length + 1 > 128
  · rw [if_pos long]
    exact ⟨_, rfl⟩
  · rw [if_neg long, if_pos (by simpa using bad.resolve_left long)]
    exact ⟨_, rfl⟩

theorem readsString {payload : Bytes} (φ : Nat) (short : payload.length + 1 ≤ 128) (noNul : (0 : UInt8) ∉ payload) :
    Reads φ readString (bytesBits (payload ++ [0])) (payload ++ [0]) := by
  intro r tail offset split
  unfold readString
  rw [bindOf _ (bytePositionOk r)]
  exact readsStringFrom φ r.bytePos maxStringBytes [] noNul (by simpa only [maxStringBytes] using short)
    r tail offset split

theorem primitiveWrites (field : Primitive) : Rejects field.write ∨
    ∃ bs, Emits field.write bs ∧ ∀ φ, (field.isSpan = true → φ % 8 = 0) →
      Reads φ field.mirror.read bs field.readBack := by
  cases field with
  | unsigned value bits =>
    by_cases bad : bits > 64 ∨ bits < 64 ∧ value.toNat ≥ 2 ^ bits
    · exact .inl (rejectsUnsigned bad)
    have register := value.toNat_lt
    have small : value.toNat < 2 ^ bits := by
      by_cases top : bits = 64
      · rwa [top]
      · omega
    refine .inr ⟨_, emitsUnsigned (by omega) small, fun φ _ => ?_⟩
    exact readsReturn (readsUnsigned φ (by omega) small) (by rw [UInt64.ofNat_toNat]; rfl)
  | signed value bits =>
    have shifts : (Primitive.signed value bits).write = writeSigned value.toInt bits := writeI64Signed value bits
    rw [shifts]
    by_cases bad : (bits = 0 ∨ bits > 64) ∨ Int.bmod value.toInt (2 ^ bits) ≠ value.toInt
    · exact .inl (rejectsSigned bad)
    rw [not_or, not_not] at bad
    obtain ⟨width, fits⟩ := bad
    rw [writeSignedFits (by omega) fits]
    refine .inr ⟨_, emitsUnsigned (by omega) (signedFieldSmall _ _), fun φ _ => ?_⟩
    exact readsReturn (readsI64 φ (by omega) fits) rfl
  | bool value =>
    exact .inr ⟨_, emitsUnsigned (by omega) (by cases value <;> simp), fun φ _ => readsReturn (readsBool φ value) rfl⟩
  | uleb128 value =>
    have range := minimalLenRange value.toNat
    refine .inr ⟨_, emitsUleb128 value, fun φ _ => readsReturn (readsUleb128 φ range.1 ?_ ?_ rfl) rfl⟩
    · simp only [maxLeb128Size]
      omega
    · exact minimalLenFits value.toNat_lt
  | string payload =>
    by_cases bad : payload.length + 1 > 128 ∨ (0 : UInt8) ∈ payload
    · exact .inl (rejectsString bad)
    rw [not_or] at bad
    refine .inr ⟨_, emitsString (by omega) bad.2, fun φ _ => ?_⟩
    exact readsReturn (readsString φ (by omega) bad.2) rfl
  | bytes span =>
    refine .inr ⟨_, emitsBytes span, fun φ aligned => readsReturn ?_ rfl⟩
    intro r tail offset split
    exact readsSpan rfl r tail (by rw [offset, aligned rfl]) split

theorem rejectedUnchanged {field : Primitive} {w w' : BitWriter} {e : Error}
    (failed : field.write w = .error e w') : w' = w := by
  rcases primitiveWrites field with rejects | ⟨bs, emits, _⟩
  · obtain ⟨e', same⟩ := rejects w
    rw [failed] at same
    exact (EStateM.Result.error.inj same).2
  · rw [emits w] at failed
    contradiction

theorem primitivesWrite {fields : List Primitive} {w w' : BitWriter}
    (ok : writeEach Primitive.write fields w = .ok () w') (aligned : spansAligned fields w = true) :
    ∃ bs, w' = BitWriter.append bs w ∧
      Reads w.bitOff (readPrimitives (fields.map Primitive.mirror)) bs (fields.map Primitive.readBack) := by
  induction fields generalizing w with
  | nil =>
    cases ok
    exact ⟨[], rfl, readsPure _ _⟩
  | cons field fields ih =>
    obtain ⟨_, w₁, first, others⟩ := bindOk ok
    rcases primitiveWrites field with rejects | ⟨bs, emits, reads⟩
    · obtain ⟨e, failed⟩ := rejects w
      rw [first] at failed
      contradiction
    have moved := first.symm.trans (emits w)
    have next : w₁ = BitWriter.append bs w := (EStateM.Result.ok.inj moved).2
    unfold spansAligned at aligned
    rw [first, Bool.and_eq_true] at aligned
    obtain ⟨here, behind⟩ := aligned
    obtain ⟨cs, last, further⟩ := ih others behind
    have octet : field.isSpan = true → w.bitOff % 8 = 0 := by
      intro span
      rw [span] at here
      have zero : w.bitOff = 0 := by simpa [BitWriter.isByteAligned] using here
      rw [zero]
    refine ⟨bs ++ cs, ?_, readsBind (reads w.bitOff octet) (readsReturn ?_ rfl)⟩
    · rw [last, next]
      exact WriteTape.appendAppend bs cs w
    · intro r tail offset split
      refine further r tail ?_ split
      rw [offset, next, BitWriter.appendBitOff, Nat.mod_mod]

theorem finishedBytes {w : BitWriter} {bytes : Bytes} (finished : w.finish = .ok bytes) :
    w = BitWriter.ofBytes bytes := by
  unfold BitWriter.finish at finished
  split at finished
  · contradiction
  · rename_i aligned
    cases finished
    exact BitWriter.alignedIsOfBytes (by simpa using aligned)

theorem advanceToEnd (r : BitCursor) :
    (advance (rest r).length r).bytePos = r.data.length ∧ (advance (rest r).length r).bitOff = 0 := by
  change (BitCursor.advance r.rest.length r).bytePos = r.data.length ∧ (BitCursor.advance r.rest.length r).bitOff = 0
  have moved := BitCursor.advancePosition (Nat.le_refl r.rest.length)
  have octet := (BitCursor.advance r.rest.length r).inOctet
  have inside := r.inData
  have own := r.inOctet
  rw [BitCursor.restLength, BitCursor.bitsRemaining] at moved octet ⊢
  simp only [BitCursor.position] at moved
  omega

theorem restOfWriter {w : BitWriter} {bytes : Bytes} {bs : List Bool} (whole : bytesBits bytes = w.toBits ++ bs)
    (inside : 8 * w.lenBytes + w.bitOff ≤ 8 * bytes.length) :
    rest (BitCursor.atBit bytes (8 * w.lenBytes + w.bitOff) inside) = bs := by
  change BitCursor.rest _ = bs
  rw [BitCursor.rest, BitCursor.atBitPosition]
  change (bytesBits bytes).drop (8 * w.out.length + w.bitOff) = bs
  rw [whole, List.drop_left' (BitWriter.toBitsLength w)]

theorem bitIoInverse :
    (∀ (fields : List Primitive) (w w' : BitWriter) (bytes : Bytes),
      writeEach Primitive.write fields w = .ok () w' → spansAligned fields w = true → w'.finish = .ok bytes →
      ∃ (inside : 8 * w.lenBytes + w.bitOff ≤ 8 * bytes.length) (r : BitCursor),
        readPrimitives (fields.map Primitive.mirror) (.atBit bytes (8 * w.lenBytes + w.bitOff) inside) =
          .ok (fields.map Primitive.readBack) r ∧
        r.data = bytes ∧ r.bytePos = bytes.length ∧ r.bitOff = 0) ∧
    ∀ (field : Primitive) (w w' : BitWriter) (e : Error), field.write w = .error e w' → w' = w := by
  refine ⟨fun fields w w' bytes ok aligned finished => ?_, fun _ _ _ _ failed => rejectedUnchanged failed⟩
  obtain ⟨bs, moved, reads⟩ := primitivesWrite ok aligned
  have whole := BitWriter.toBitsAppend bs w
  rw [← moved, finishedBytes finished, BitWriter.toBitsOfBytes] at whole
  have lengths := congrArg List.length whole
  rw [bytesBitsLength, List.length_append, BitWriter.toBitsLength] at lengths
  have inside : 8 * w.lenBytes + w.bitOff ≤ 8 * bytes.length := by
    simp only [BitWriter.lenBytes]
    omega
  have here := restOfWriter whole inside
  have octet : phase (BitCursor.atBit bytes (8 * w.lenBytes + w.bitOff) inside) = w.bitOff % 8 := by
    rw [phaseIsBitOff]
    simp only [BitCursor.atBit]
    omega
  have read := reads _ [] octet (by rw [here, List.append_nil])
  rw [← here] at read
  exact ⟨inside, _, read, rfl, advanceToEnd _⟩

def midOctet : BitWriter := ⟨[7], 0xa0, 3, by decide, by decide⟩

def mixedFields : List Primitive :=
  [.signed (-3) 9, .bool true, .unsigned 5 3, .string [65], .uleb128 300, .bytes [1, 2]]

theorem bitIoInverseMixed : ∃ (inside : 11 ≤ 8 * 9) (r : BitCursor),
    readPrimitives (mixedFields.map Primitive.mirror)
      (.atBit [7, 191, 221, 65, 0, 172, 2, 1, 2] 11 inside) =
        .ok (mixedFields.map Primitive.readBack) r ∧
      r.data = [7, 191, 221, 65, 0, 172, 2, 1, 2] ∧
      r.bytePos = 9 ∧ r.bitOff = 0 :=
  bitIoInverse.1 mixedFields midOctet
    (.ofBytes [7, 191, 221, 65, 0, 172, 2, 1, 2]) _
    (by rfl) (by decide +kernel) rfl

end Iamf.Bits
