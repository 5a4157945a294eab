import Iamf.ObuHeader

/-! One OBU on the wire: header, `obu_size`, the fields behind it, and the payload with the
bytes the payload syntax leaves over. Nothing is said here about what a payload means. -/
namespace Iamf.Wire
open Bits BitString TapeCodec ReadTape WriteTape

structure Obu (T : Type) where
  header : ObuHeader
  payload : T
  trailing : Bytes
  deriving DecidableEq, Repr

def Obu.new {T : Type} (header : ObuHeader) (payload : T) : Obu T := ⟨header, payload, []⟩

def validateObuSize (obuSize : UInt32) (sizeOfObuSize : Nat) (loc : Location) : Except Error Unit :=
  if entireObuSizeMax < 1 + sizeOfObuSize then .error ⟨.obuTooLarge, loc⟩
  else if obuSize.toNat > entireObuSizeMax - 1 - sizeOfObuSize then .error ⟨.obuTooLarge, loc⟩
  else .ok ()

def obuSizeFor (after : BitWriter) (payloadLen : Nat) : Except Error UInt32 :=
  let total := after.lenBytes + payloadLen
  if !after.isByteAligned then .error ⟨.unalignedAfterSizeFields, .outputOffset 0⟩
  else if total > u64Max then .error ⟨.obuSizeOverflow, .outputOffset 0⟩
  else do
    let obuSize ← u32TryFrom total ⟨.obuTooLarge, .outputOffset 0⟩
    validateObuSize obuSize (minimalLen obuSize.toNat) (.outputOffset 0)
    pure obuSize

def measureObu (header : ObuHeader) (payloadLen : Nat) : Except Error (UInt32 × Bytes) := do
  validateHeader header
  let after ← runWriter (writeFieldsAfterObuSize header)
  let obuSize ← obuSizeFor after payloadLen
  let fields ← after.finish
  pure (obuSize, fields)

def writeObu (header : ObuHeader) (payload : Bytes) : Writer Unit := do
  let w ← getWriter
  ensure w.isByteAligned ⟨.notByteAligned, .unlocated⟩
  let (obuSize, fields) ← orThrow (measureObu header payload.length)
  writeUnsigned header.obuType.value.toNat 5
  writeBool header.obuRedundantCopy
  writeBool header.trimmingStatusFlag
  writeBool header.extensionFlag
  writeUleb128Minimal obuSize
  writeBytes fields
  writeBytes payload

def writeObuWithHeader {T : Type} (obu : Obu T) (writePayload : ObuHeader → T → Writer Unit) : Writer Unit := do
  let bytes ← orThrow (finishWriter (writePayload obu.header obu.payload))
  writeObu obu.header (bytes ++ obu.trailing)

def writeObuWith {T : Type} (obu : Obu T) (writePayload : T → Writer Unit) : Writer Unit :=
  writeObuWithHeader obu fun _ payload => writePayload payload

def peek {α : Type} (f : Reader α) : Reader α := fun c =>
  match f c with
  | .ok v _ => .ok v c
  | .error e _ => .error e c

section

variable [UlebForm]

def windowError (boundedByObuSize : Bool) (obuStart afterSizeStart : Nat) (e : Error) : Error :=
  if boundedByObuSize && e.kind == .unexpectedEndOfInput then inputError .truncatedObu obuStart
  else e.withInputBase afterSizeStart

def readFirstByte : Reader (ObuType × Bool × Bool × Bool) := do
  let raw ← readU8 5
  let obuRedundantCopy ← readBool
  let trimmingStatusFlag ← readBool
  let extensionFlag ← readBool
  pure (ObuType.fromValue raw, obuRedundantCopy, trimmingStatusFlag, extensionFlag)

def readObuSize : Reader UInt32 := do
  let sizeStart ← bytePosition
  let obuSize ← readUleb128
  let behind ← bytePosition
  ensure (sizeStart ≤ behind) (inputError .obuTooLarge sizeStart)
  orThrow (validateObuSize obuSize (behind - sizeStart) (.inputOffset (sizeStart - 1)))
  pure obuSize

def readObuHeaderParts : Reader (ObuHeader × UInt32 × Nat) := do
  let obuStart ← bytePosition
  let (obuType, obuRedundantCopy, trimmingStatusFlag, extensionFlag) ← readFirstByte
  let obuSize ← readObuSize
  let afterSizeStart ← bytePosition
  let available ← bytesRemaining
  let window ← peek (subReader (min obuSize.toNat available))
  match readFieldsAfterObuSize obuType trimmingStatusFlag extensionFlag window with
  | .error e _ => throw (windowError (obuSize.toNat ≤ available) obuStart afterSizeStart e)
  | .ok (typeSpecific, extension) behind => do
    let _ ← readUint8Span behind.bytePosition
    pure (⟨obuType, obuRedundantCopy, typeSpecific, extension⟩, obuSize, behind.bytePosition)

def readObuHeader : Reader (ObuHeader × UInt32) := do
  let (header, obuSize, _) ← readObuHeaderParts
  pure (header, obuSize)

def readObuSpan : Reader (ObuHeader × Bytes) := do
  let before ← bytePosition
  let (header, obuSize, afterSizeBytes) ← readObuHeaderParts
  ensure (afterSizeBytes ≤ obuSize.toNat) (inputError .truncatedObu before)
  let payload ← readUint8Span (obuSize.toNat - afterSizeBytes)
  pure (header, payload)

end

def parsePayload {T : Type} (parse : Reader T) (payload : Bytes) : Except Error (T × Bytes) :=
  match parse (BitCursor.new payload) with
  | .error e _ => .error e
  | .ok value behind =>
    match readUint8Span behind.bytesRemaining behind with
    | .error e _ => .error e
    | .ok trailing _ => .ok (value, trailing)

section

variable [UlebForm]

def readObuWithHeader {T : Type} (parse : ObuHeader → Reader T) : Reader (Obu T) := do
  let (header, payload) ← readObuSpan
  let (value, trailing) ← orThrow (parsePayload (parse header) payload)
  pure ⟨header, value, trailing⟩

def readObuWith {T : Type} (parse : Reader T) : Reader (Obu T) := readObuWithHeader fun _ => parse

end

def firstByteBits (raw : UInt8) (redundant trimmed extended : Bool) : List Bool :=
  bitsOf 5 raw.toNat ++ (bitsOf 1 redundant.toNat ++ (bitsOf 1 trimmed.toNat ++ bitsOf 1 extended.toNat))

inductive FrameSource [UlebForm] : List Bool → ObuHeader → Bytes → Prop where
  | intro (raw : UInt8) (redundant trimmed extended : Bool) (n : Nat) (obuSize : UInt32) (span : Bytes)
      (typeSpecific : TypeSpecific) (extension : Option Bytes) (behind : BitCursor)
      (fiveBits : raw.toNat < 32) (positive : 1 ≤ n) (enough : n ≤ maxLeb128Size)
      (fits : obuSize.toNat < 2 ^ (7 * n)) (form : UlebForm.accepts obuSize.toNat n = true)
      (bounded : obuSize.toNat + n + 1 ≤ entireObuSizeMax) (length : span.length = obuSize.toNat)
      (fields : readFieldsAfterObuSize (.fromValue raw) trimmed extended (BitCursor.new span) =
        .ok (typeSpecific, extension) behind) :
      FrameSource (firstByteBits raw redundant trimmed extended ++ (ulebBits n obuSize.toNat ++ bytesBits span))
        ⟨.fromValue raw, redundant, typeSpecific, extension⟩ (span.drop behind.bytePos)

theorem validateObuSizeOk {obuSize : UInt32} {n : Nat} (loc : Location) (small : n ≤ maxLeb128Size) :
    validateObuSize obuSize n loc = .ok () ↔ obuSize.toNat + n + 1 ≤ entireObuSizeMax := by
  unfold validateObuSize entireObuSizeMax
  simp only [maxLeb128Size] at small
  split_ifs <;> simp <;> omega

theorem consumesFirstByte : Consumes readFirstByte fun parts bs => ∃ raw : UInt8, raw.toNat < 32 ∧
    parts.1 = .fromValue raw ∧ bs = firstByteBits raw parts.2.1 parts.2.2.1 parts.2.2.2 := by
  refine consumesBind (consumesU8Bits (by omega)) fun raw bs ⟨small, five⟩ => ?_
  refine consumesBind consumesBoolBits fun redundant cs copy => ?_
  refine consumesBind consumesBoolBits fun trimmed ds trim => ?_
  refine consumesBind consumesBoolBits fun extended es extension => consumesPure ⟨raw, small, rfl, ?_⟩
  simp [firstByteBits, five, copy, trim, extension]

theorem readsFirstByte {raw : UInt8} (fiveBits : raw.toNat < 32) (redundant trimmed extended : Bool) :
    Reads 0 readFirstByte (firstByteBits raw redundant trimmed extended)
      (.fromValue raw, redundant, trimmed, extended) := by
  refine readsBind (readsU8 0 (by omega) fiveBits) ?_
  refine readsBind (readsBool _ redundant) ?_
  refine readsBind (readsBool _ trimmed) ?_
  exact readsReturn (readsBool _ extended) rfl

theorem advanceAligned {c : BitCursor} {k : Nat} (aligned : c.bitOff = 0) (inside : 8 * k ≤ (rest c).length) :
    (advance (8 * k) c).bytePos = c.bytePos + k ∧ (advance (8 * k) c).bitOff = 0 := by
  have moved : (advance (8 * k) c).position = c.position + 8 * k := BitCursor.advancePosition inside
  have octet := (advance (8 * k) c).inOctet
  simp only [BitCursor.position] at moved
  omega

theorem windowOk {c : BitCursor} {span : Bytes} {tail : List Bool} {obuSize : UInt32} (aligned : c.bitOff = 0)
    (length : span.length = obuSize.toNat) (split : rest c = bytesBits span ++ tail) :
    obuSize.toNat ≤ c.bytesRemaining ∧
      peek (subReader (min obuSize.toNat c.bytesRemaining)) c = .ok (BitCursor.new span) c := by
  have enough : obuSize.toNat ≤ c.bytesRemaining := by
    have total := congrArg List.length split
    change c.rest.length = _ at total
    rw [BitCursor.restLength, List.length_append, bytesBitsLength, length] at total
    simp only [BitCursor.bytesRemaining]; omega
  refine ⟨enough, ?_⟩
  have read := readSpanOk aligned split
  rw [length] at read
  unfold peek subReader
  rw [Nat.min_eq_left enough, bindOf _ read]
  rfl

section

variable [UlebForm]

theorem readObuSizeOk {c : BitCursor} {obuSize : UInt32} {n : Nat} {tail : List Bool} (aligned : c.bitOff = 0)
    (positive : 1 ≤ n) (enough : n ≤ maxLeb128Size) (fits : obuSize.toNat < 2 ^ (7 * n))
    (form : UlebForm.accepts obuSize.toNat n = true) (bounded : obuSize.toNat + n + 1 ≤ entireObuSizeMax)
    (split : rest c = ulebBits n obuSize.toNat ++ tail) :
    readObuSize c = .ok obuSize (advance (8 * n) c) := by
  have size := readsUleb128 0 positive enough fits form c tail (by rw [phaseIsBitOff, aligned]) split
  rw [ulebBitsLength] at size
  obtain ⟨behind, _⟩ := advanceAligned (k := n) aligned (by rw [split]; simp)
  have checked := (validateObuSizeOk (.inputOffset (c.bytePos - 1)) enough).mpr bounded
  unfold readObuSize
  rw [bindOf _ (bytePositionOk c), bindOf _ size,
    bindOf _ (bytePositionOk _)]
  rw [behind, decide_eq_true (by omega), ensureTrue, bindOf _ (pureOk () _), Nat.add_sub_cancel_left, checked]
  rfl

theorem readObuSizeSource {c c' : BitCursor} {obuSize : UInt32} (aligned : c.bitOff = 0)
    (ok : readObuSize c = .ok obuSize c') : ∃ n tail, 1 ≤ n ∧ n ≤ maxLeb128Size ∧
      obuSize.toNat < 2 ^ (7 * n) ∧ UlebForm.accepts obuSize.toNat n = true ∧
      obuSize.toNat + n + 1 ≤ entireObuSizeMax ∧ rest c = ulebBits n obuSize.toNat ++ tail ∧
      c' = advance (8 * n) c := by
  unfold readObuSize at ok
  rw [bindOf _ (bytePositionOk c)] at ok
  obtain ⟨size, c1, uleb, ok⟩ := bindOk ok
  obtain ⟨bs, tail, split, moved, n, positive, enough, fits, bits, form⟩ := consumesUlebBits c size c1 uleb
  subst bits
  rw [ulebBitsLength] at moved
  subst moved
  obtain ⟨behind, _⟩ := advanceAligned (k := n) aligned (by rw [split]; simp)
  rw [bindOf _ (bytePositionOk _), behind] at ok
  obtain ⟨_, c2, order, ok⟩ := bindOk ok
  obtain ⟨_, same⟩ := ensureOk order
  subst same
  obtain ⟨_, c3, bound, ok⟩ := bindOk ok
  obtain ⟨checked, same⟩ := orThrowOk bound
  subst same
  cases ok
  rw [Nat.add_sub_cancel_left] at checked
  exact ⟨n, tail, positive, enough, fits, form, (validateObuSizeOk _ enough).mp checked, split, rfl⟩

theorem fieldsPosition {obuType : ObuType} {trimmed extended : Bool} {span : Bytes}
    {fields : TypeSpecific × Option Bytes} {behind : BitCursor}
    (ok : readFieldsAfterObuSize obuType trimmed extended (BitCursor.new span) = .ok fields behind)
    (plain : ¬ obuType.Aliased) : behind.bitOff = 0 ∧ behind.bytePos ≤ span.length ∧
      ∀ redundant, Rewrites Canonical
        (writeFieldsAfterObuSize ⟨obuType, redundant, fields.1, fields.2⟩) (bytesBits (span.take behind.bytePos)) ∧
        Normal ⟨obuType, redundant, fields.1, fields.2⟩ ∧
        ObuHeader.trimmingStatusFlag ⟨obuType, redundant, fields.1, fields.2⟩ = trimmed ∧
        fields.2.isSome = extended := by
  have consumed (redundant : Bool) := consumesFields redundant trimmed extended plain _ _ _ ok
  obtain ⟨bs, tail, split, moved, normal, trim, extend, rewrites⟩ := consumed false
  have whole : rest (BitCursor.new span) = bytesBits span := rfl
  rw [whole] at split
  have total := congrArg List.length split
  rw [List.length_append, bytesBitsLength] at total
  -- the fields are whole octets because the writer's are
  have octets : bs.length % 8 = 0 := by
    obtain ⟨out, emits, _, octet, _⟩ := rewrites
    rcases pairedFields normal with refused | ⟨cs, csPhase, emits', _⟩
    · exact absurd refused (emitsNotRefuses emits)
    · rw [emitsUnique emits emits'] at octet
      omega
  obtain ⟨k, size⟩ : ∃ k, bs.length = 8 * k := ⟨bs.length / 8, by omega⟩
  rw [size] at moved
  obtain ⟨position, aligned⟩ := advanceAligned (c := BitCursor.new span) (k := k) rfl (by rw [whole, bytesBitsLength]; omega)
  rw [← moved] at position aligned
  have start : behind.bytePos = k := by rw [position]; simp [BitCursor.new]
  have bits : bs = bytesBits (span.take behind.bytePos) := by
    rw [start, ← bytesBitsTake, split, ← size, List.take_left]
  refine ⟨aligned, by rw [start]; omega, fun redundant => ?_⟩
  obtain ⟨bs', tail', split', moved', normal', trim', extend', rewrites'⟩ := consumed redundant
  have same : bs' = bs := by
    have lengths := congrArg BitCursor.position (moved'.symm.trans moved)
    have inside' : bs'.length ≤ (BitCursor.new span).rest.length := by
      change _ ≤ (rest (BitCursor.new span)).length; rw [split']; simp
    have inside : 8 * k ≤ (BitCursor.new span).rest.length := by
      change _ ≤ (rest (BitCursor.new span)).length; rw [whole, bytesBitsLength]; omega
    change (BitCursor.advance _ _).position = (BitCursor.advance _ _).position at lengths
    rw [BitCursor.advancePosition inside', BitCursor.advancePosition inside] at lengths
    rw [whole, split] at split'
    exact (List.append_inj split' (by omega)).1.symm
  rw [← bits, ← same]
  exact ⟨rewrites', normal', trim', extend'⟩

theorem readsObuSpan {frame : List Bool} {header : ObuHeader} {payload : Bytes}
    (source : FrameSource frame header payload) : Reads 0 readObuSpan frame (header, payload) := by
  cases source with
  | intro raw redundant trimmed extended n obuSize span typeSpecific extension behind fiveBits positive enough
      fits form bounded length fields =>
  intro r tail offset split
  have aligned : r.bitOff = 0 := by rw [← phaseIsBitOff, offset]
  have plain := ObuType.fromValueNotAliased raw
  obtain ⟨_, inside, _⟩ := fieldsPosition fields plain
  have first := readsFirstByte fiveBits redundant trimmed extended r _ offset
    (by rw [split, List.append_assoc])
  have size8 : (firstByteBits raw redundant trimmed extended).length = 8 * 1 := by simp [firstByteBits]
  rw [size8] at first
  have split1 : rest (advance (8 * 1) r) = ulebBits n obuSize.toNat ++ (bytesBits span ++ tail) := by
    rw [restAdvance _ _ (by rw [split]; simp [size8]), split, List.append_assoc, ← size8, List.drop_left]
    simp
  obtain ⟨_, aligned1⟩ := advanceAligned (k := 1) aligned (by rw [split]; simp [size8])
  have size := readObuSizeOk aligned1 positive enough fits form bounded split1
  have split2 : rest (advance (8 * n) (advance (8 * 1) r)) = bytesBits span ++ tail := by
    rw [restAdvance _ _ (by rw [split1]; simp), split1, ← ulebBitsLength n obuSize.toNat, List.drop_left]
  obtain ⟨_, aligned2⟩ := advanceAligned (k := n) aligned1 (by rw [split1]; simp)
  obtain ⟨available, window⟩ := windowOk aligned2 length split2
  have parts : span = span.take behind.bytePos ++ span.drop behind.bytePos := (List.take_append_drop ..).symm
  have front : (span.take behind.bytePos).length = behind.bytePos := by rw [List.length_take]; omega
  have back : (span.drop behind.bytePos).length = obuSize.toNat - behind.bytePos := by
    rw [List.length_drop, length]
  have split3 : rest (advance (8 * n) (advance (8 * 1) r)) = bytesBits (span.take behind.bytePos) ++
      (bytesBits (span.drop behind.bytePos) ++ tail) := by
    rw [split2, ← List.append_assoc, ← bytesBitsAppend, List.take_append_drop]
  have skip := readSpanOk aligned2 split3
  have split4 : rest (advance (bytesBits (span.take behind.bytePos)).length
      (advance (8 * n) (advance (8 * 1) r))) = bytesBits (span.drop behind.bytePos) ++ tail := by
    rw [restAdvance _ _ (by rw [split3]; simp), split3, List.drop_left]
  have aligned4 : (advance (bytesBits (span.take behind.bytePos)).length
      (advance (8 * n) (advance (8 * 1) r))).bitOff = 0 := by
    rw [bytesBitsLength]
    exact (advanceAligned aligned2 (by rw [split3]; simp)).2
  have last := readSpanOk aligned4 split4
  rw [front] at skip
  rw [back] at last
  have partsOk : readObuHeaderParts r = .ok (⟨.fromValue raw, redundant, typeSpecific, extension⟩, obuSize,
      behind.bytePos) (advance (bytesBits (span.take behind.bytePos)).length (advance (8 * n) (advance (8 * 1) r))) := by
    unfold readObuHeaderParts
    rw [bindOf _ (bytePositionOk r), bindOf _ first]
    simp only []
    rw [bindOf _ size, bindOf _ (bytePositionOk _), bindOf _ (bytesRemainingOk _), bindOf _ window]
    simp only [fields]
    rw [show behind.bytePosition = behind.bytePos from rfl, bindOf _ skip]
    rfl
  unfold readObuSpan
  rw [bindOf _ (bytePositionOk r), bindOf _ partsOk]
  simp only []
  rw [decide_eq_true (by omega), ensureTrue, bindOf _ (pureOk () _), bindOf _ last, pureOk]
  have total : (rest r).length = 8 + (8 * n + 8 * obuSize.toNat) + tail.length := by
    rw [split]
    simp [size8, length]; omega
  have merge2 : advance (8 * n) (advance (8 * 1) r) = advance (8 * 1 + 8 * n) r :=
    advanceAdd _ _ _ (by omega)
  have merge3 := advanceAdd (8 * 1 + 8 * n) (bytesBits (span.take behind.bytePos)).length r
    (by rw [bytesBitsLength, front]; omega)
  have merge4 := advanceAdd (8 * 1 + 8 * n + (bytesBits (span.take behind.bytePos)).length)
    (bytesBits (span.drop behind.bytePos)).length r
    (by rw [bytesBitsLength, bytesBitsLength, front, back]; omega)
  rw [merge2, merge3, merge4]
  congr 2
  simp only [List.length_append, size8, ulebBitsLength, bytesBitsLength, front, back, length]
  omega

theorem readObuSpanSource {r r' : BitCursor} {header : ObuHeader} {payload : Bytes} (aligned : r.bitOff = 0)
    (ok : readObuSpan r = .ok (header, payload) r') : ∃ frame tail, rest r = frame ++ tail ∧
      r' = advance frame.length r ∧ FrameSource frame header payload := by
  have success := ok
  unfold readObuSpan at ok
  rw [bindOf _ (bytePositionOk r)] at ok
  obtain ⟨⟨h, obuSize, k⟩, c3, parts, ok⟩ := bindOk ok
  simp only at ok
  obtain ⟨_, c3', checked, spanned⟩ := bindOk ok
  obtain ⟨order, same⟩ := ensureOk checked
  subst same
  obtain ⟨span4, c4, last, final⟩ := bindOk spanned
  cases final
  unfold readObuHeaderParts at parts
  rw [bindOf _ (bytePositionOk r)] at parts
  obtain ⟨⟨obuType, redundant, trimmed, extended⟩, c1, first, parts⟩ := bindOk parts
  obtain ⟨bs, tail1, split, moved1, raw, fiveBits, type, bits⟩ := consumesFirstByte r _ c1 first
  simp only at type bits parts
  subst type bits
  have size8 : (firstByteBits raw redundant trimmed extended).length = 8 * 1 := by simp [firstByteBits]
  rw [size8] at moved1
  obtain ⟨_, aligned1⟩ := advanceAligned (k := 1) aligned (by rw [split]; simp [size8])
  rw [← moved1] at aligned1
  obtain ⟨size, c2, sizeOk, parts⟩ := bindOk parts
  obtain ⟨n, tail2, positive, enough, fits, form, bounded, split2, moved2⟩ := readObuSizeSource aligned1 sizeOk
  obtain ⟨_, aligned2⟩ := advanceAligned (k := n) aligned1 (by rw [split2]; simp)
  rw [← moved2] at aligned2
  rw [bindOf _ (bytePositionOk _), bindOf _ (bytesRemainingOk _)] at parts
  obtain ⟨window, c2', peeked, parts⟩ := bindOk parts
  unfold peek subReader at peeked
  cases windowed : readUint8Span (min size.toNat c2.bytesRemaining) c2 with
  | error e s => rw [bindError _ windowed] at peeked; contradiction
  | ok span c5 =>
  rw [bindOf _ windowed] at peeked
  cases peeked
  cases fields : readFieldsAfterObuSize (.fromValue raw) trimmed extended (BitCursor.new span) with
  | error e s => simp only [fields] at parts; cases parts
  | ok pair behind =>
  obtain ⟨typeSpecific, extension⟩ := pair
  simp only [fields] at parts
  obtain ⟨skipped, c6, skip, parts⟩ := bindOk parts
  cases parts
  have order : behind.bytePos ≤ obuSize.toNat := of_decide_eq_true order
  obtain ⟨_, windowLength, tail5, split5, _⟩ := readSpanSource windowed
  obtain ⟨_, skipLength, tail6, split6, moved6⟩ := readSpanSource skip
  obtain ⟨_, lastLength, tail7, split7, _⟩ := readSpanSource last
  have split7' : (advance (bytesBits skipped).length c2 : BitCursor).rest = tail6 := by
    have moved := restAdvance (bytesBits skipped).length c2 (by change _ ≤ c2.rest.length; rw [split6]; simp)
    change BitCursor.rest _ = c2.rest.drop _ at moved
    rw [moved, split6, List.drop_left]
  rw [moved6, split7'] at split7
  have whole : c2.rest = bytesBits (skipped ++ payload) ++ tail7 := by
    rw [split6, split7, bytesBitsAppend, List.append_assoc]
  have available : obuSize.toNat ≤ c2.bytesRemaining := by
    have total := congrArg List.length whole
    rw [BitCursor.restLength, List.length_append, bytesBitsLength, List.length_append, skipLength, lastLength] at total
    change behind.bytePos ≤ obuSize.toNat at order
    simp only [BitCursor.bytesRemaining, show behind.bytePosition = behind.bytePos from rfl] at total ⊢
    omega
  rw [Nat.min_eq_left available] at windowLength
  obtain ⟨same, tails⟩ := bytesBitsCancel
    (by rw [windowLength, List.length_append, skipLength, lastLength]
        simp only [show behind.bytePosition = behind.bytePos from rfl]; omega) (split5.symm.trans whole)
  have payloadIs : payload = span.drop behind.bytePos := by
    rw [same, List.drop_left' (show skipped.length = behind.bytePos from skipLength)]
  have source := FrameSource.intro raw redundant trimmed extended n obuSize span typeSpecific extension behind
    fiveBits positive enough fits form bounded windowLength fields
  rw [← payloadIs] at source
  have restR : rest r = firstByteBits raw redundant trimmed extended ++
      (ulebBits n obuSize.toNat ++ bytesBits span) ++ tail5 := by
    have after1 : rest c1 = tail1 := by
      rw [moved1, restAdvance _ _ (by rw [split]; simp [size8]), split, ← size8, List.drop_left]
    have after2 : rest c2 = tail2 := by
      rw [moved2, restAdvance _ _ (by rw [split2]; simp), split2, ← ulebBitsLength n obuSize.toNat, List.drop_left]
    have tail2Is : tail2 = bytesBits span ++ tail5 := after2.symm.trans split5
    rw [split, ← after1, split2, tail2Is]
    simp
  refine ⟨_, tail5, restR, ?_, source⟩
  have again := readsObuSpan source r tail5 (by rw [phaseIsBitOff, aligned]) restR
  rw [success] at again
  exact (EStateM.Result.ok.inj again).2

end

structure Measured (header : ObuHeader) (payloadLen : Nat) (obuSize : UInt32) (fields : Bytes) : Prop where
  valid : validateHeader header = .ok ()
  fieldBytes : finishWriter (writeFieldsAfterObuSize header) = .ok fields
  size : obuSize.toNat = fields.length + payloadLen
  bounded : obuSize.toNat + minimalLen obuSize.toNat + 1 ≤ entireObuSizeMax

theorem obuSizeForOk {after : BitWriter} {payloadLen : Nat} {obuSize : UInt32} :
    obuSizeFor after payloadLen = .ok obuSize ↔ after.bitOff = 0 ∧
      obuSize.toNat = after.out.length + payloadLen ∧
      obuSize.toNat + minimalLen obuSize.toNat + 1 ≤ entireObuSizeMax := by
  have width (size : UInt32) : minimalLen size.toNat ≤ maxLeb128Size := by
    have := minimalLenRange size.toNat
    simp only [maxLeb128Size]; omega
  constructor
  · intro ok
    unfold obuSizeFor at ok
    simp only at ok
    split at ok
    · cases ok
    split at ok
    · cases ok
    rename_i aligned _
    obtain ⟨value, size, tail⟩ := exceptBindOk ok
    obtain ⟨_, checked, last⟩ := exceptBindOk tail
    cases last
    exact ⟨by simpa [BitWriter.isByteAligned] using aligned, u32TryFromOk size,
      (validateObuSizeOk _ (width _)).mp checked⟩
  · rintro ⟨aligned, total, bounded⟩
    have register := obuSize.toNat_lt
    have checked := (validateObuSizeOk (.outputOffset 0) (width obuSize)).mpr bounded
    have size : u32TryFrom (after.lenBytes + payloadLen) ⟨.obuTooLarge, .outputOffset 0⟩ = .ok obuSize := by
      unfold u32TryFrom BitWriter.lenBytes
      rw [← total, if_pos (by simp only [u32Max]; omega), UInt32.ofNat_toNat]
    have small : ¬ after.lenBytes + payloadLen > u64Max := by
      simp only [BitWriter.lenBytes, ← total, u64Max]; omega
    unfold obuSizeFor
    simp only [BitWriter.isByteAligned, aligned, small, if_false]
    rw [exceptBindOf _ size, exceptBindOf _ checked]
    rfl

theorem measureObuOk {header : ObuHeader} {payloadLen : Nat} {obuSize : UInt32} {fields : Bytes} :
    measureObu header payloadLen = .ok (obuSize, fields) ↔ Measured header payloadLen obuSize fields := by
  constructor
  · intro ok
    obtain ⟨_, valid, ok1⟩ := exceptBindOk ok
    obtain ⟨after, run, ok2⟩ := exceptBindOk ok1
    obtain ⟨value, size, ok3⟩ := exceptBindOk ok2
    obtain ⟨bytes, done, last⟩ := exceptBindOk ok3
    cases last
    obtain ⟨aligned, total, bounded⟩ := obuSizeForOk.mp size
    have out : fields = after.out := by
      unfold BitWriter.finish at done
      rw [if_neg (by simpa using aligned)] at done
      exact (Except.ok.inj done).symm
    exact ⟨valid, by unfold finishWriter; rw [run]; exact done, by rw [total, out], bounded⟩
  · rintro ⟨valid, fieldBytes, total, bounded⟩
    obtain ⟨after, run, done⟩ := exceptBindOk fieldBytes
    have finished := done
    unfold BitWriter.finish at done
    split at done
    · contradiction
    rename_i aligned
    cases done
    have size := obuSizeForOk.mpr ⟨by simpa using aligned, total, bounded⟩
    unfold measureObu
    rw [exceptBindOf _ valid, exceptBindOf _ run, exceptBindOf _ size, exceptBindOf _ finished]
    rfl

def frameBits (header : ObuHeader) (obuSize : UInt32) (fields payload : Bytes) : List Bool :=
  firstByteBits header.obuType.value header.obuRedundantCopy header.trimmingStatusFlag header.extensionFlag ++
    (ulebBits (minimalLen obuSize.toNat) obuSize.toNat ++ bytesBits (fields ++ payload))

theorem writeObuOk {header : ObuHeader} {payload fields : Bytes} {obuSize : UInt32} {w : BitWriter}
    (aligned : w.bitOff = 0) (fiveBits : header.obuType.value.toNat < 32)
    (measured : Measured header payload.length obuSize fields) :
    writeObu header payload w = .ok () (append (frameBits header obuSize fields payload) w) := by
  have bool (b : Bool) : Emits (writeBool b) (bitsOf 1 b.toNat) :=
    emitsUnsigned (by omega) (by cases b <;> simp)
  have emits := emitsBind (emitsUnsigned (n := 5) (by omega) fiveBits)
    (k := fun _ => do
      writeBool header.obuRedundantCopy
      writeBool header.trimmingStatusFlag
      writeBool header.extensionFlag
      writeUleb128Minimal obuSize
      writeBytes fields
      writeBytes payload)
    (emitsBind (bool header.obuRedundantCopy) (emitsBind (bool header.trimmingStatusFlag)
      (emitsBind (bool header.extensionFlag) (emitsBind (emitsUleb128 obuSize)
        (emitsBind (emitsBytes fields) (emitsBytes payload)))))) w
  unfold writeObu
  rw [bindOf _ (getWriterOk w)]
  simp only [BitWriter.isByteAligned, aligned, measureObuOk.mpr measured]
  rw [show ((0 : Nat) == 0) = true from rfl, ensureTrue, bindOf _ (pureOk () w)]
  simp only [frameBits, firstByteBits, bytesBitsAppend, List.append_assoc] at emits ⊢
  exact emits

theorem writeObuSource {header : ObuHeader} {payload : Bytes} {w w' : BitWriter}
    (ok : writeObu header payload w = .ok () w') : w.bitOff = 0 ∧ header.obuType.value.toNat < 32 ∧
      ∃ obuSize fields, Measured header payload.length obuSize fields ∧
        w' = append (frameBits header obuSize fields payload) w := by
  have success := ok
  unfold writeObu at ok
  rw [bindOf _ (getWriterOk w)] at ok
  obtain ⟨_, w1, checked, rest⟩ := bindOk ok
  obtain ⟨aligned, same⟩ := ensureOk checked
  subst same
  obtain ⟨⟨obuSize, fields⟩, w2, measure, rest'⟩ := bindOk rest
  obtain ⟨measured, same⟩ := orThrowOk measure
  subst same
  have measured := measureObuOk.mp measured
  simp only at rest'
  have aligned : w2.bitOff = 0 := by simpa [BitWriter.isByteAligned] using aligned
  have fiveBits : header.obuType.value.toNat < 32 := by
    by_contra wide
    obtain ⟨e, w', failed⟩ := refusesBind _ (refusesUnsigned (n := 5) (by omega)
      (by omega : 2 ^ 5 ≤ header.obuType.value.toNat)) w2
    rw [failed] at rest'
    contradiction
  refine ⟨aligned, fiveBits, obuSize, fields, measured, ?_⟩
  rw [writeObuOk aligned fiveBits measured] at success
  exact (EStateM.Result.ok.inj success).2.symm

theorem frameSourceOfWrite {header : ObuHeader} {payload fields : Bytes} {obuSize : UInt32}
    (normal : Normal header) (fiveBits : header.obuType.value.toNat < 32)
    (measured : Measured header payload.length obuSize fields) :
    FrameSource (frameBits header obuSize fields payload) header payload := by
  rcases pairedFields normal with refused | ⟨bs, _, emits, reads⟩
  · obtain ⟨e, failed⟩ := finishWriterRefuses refused
    rw [measured.fieldBytes] at failed
    contradiction
  have bits := finishWriterSource emits measured.fieldBytes
  subst bits
  have start : phase (BitCursor.new (fields ++ payload)) = 0 % 8 := phaseIsBitOff _
  have read := reads (BitCursor.new (fields ++ payload)) (bytesBits payload) start
    (by change bytesBits (fields ++ payload) = _; simp)
  have whole : rest (BitCursor.new (fields ++ payload)) = bytesBits (fields ++ payload) := rfl
  have position : (advance (bytesBits fields).length (BitCursor.new (fields ++ payload))).bytePos =
      fields.length := by
    rw [bytesBitsLength, (advanceAligned rfl (by rw [whole]; simp)).1]
    exact Nat.zero_add _
  have range := minimalLenRange obuSize.toNat
  have value := ObuType.fromValueOfValue normal.plain
  have source := FrameSource.intro header.obuType.value header.obuRedundantCopy header.trimmingStatusFlag
    header.extensionFlag (minimalLen obuSize.toNat) obuSize (fields ++ payload) header.typeSpecific header.extension
    _ fiveBits range.1 (by simp only [maxLeb128Size]; omega) (minimalLenFits obuSize.toNat_lt) rfl
    measured.bounded (by rw [List.length_append, measured.size]) (by rw [value]; exact read)
  rw [position, List.drop_left, value] at source
  exact source

section

variable [UlebForm]

theorem measuredOfSource {frame : List Bool} {header : ObuHeader} {payload : Bytes}
    (source : FrameSource frame header payload) {payload' : Bytes} (shorter : payload'.length ≤ payload.length) :
    Normal header ∧ header.obuType.value.toNat < 32 ∧ ∃ obuSize fields,
      (validateHeader header = .ok () → Measured header payload'.length obuSize fields) ∧
      (frameBits header obuSize fields payload').length ≤ frame.length ∧
      (Canonical → payload' = payload → frameBits header obuSize fields payload' = frame) := by
  cases source with
  | intro raw redundant trimmed extended n obuSize span typeSpecific extension behind fiveBits positive enough
      fits form bounded length fields =>
  have plain := ObuType.fromValueNotAliased raw
  obtain ⟨_, inside, each⟩ := fieldsPosition fields plain
  obtain ⟨rewrites, normal, trim, extend⟩ := each redundant
  have raws := ObuType.valueOfFromValue raw
  refine ⟨normal, by rw [raws]; exact fiveBits, ?_⟩
  obtain ⟨out, emits, short, octet, same⟩ := rewrites
  rw [bytesBitsLength, List.length_take, Nat.min_eq_left inside] at short octet
  obtain ⟨k, size⟩ : ∃ k, out.length = 8 * k := ⟨out.length / 8, by omega⟩
  have packed := packBitsExact k out size
  have packedLength : (packBits k out).length = k := by
    have := congrArg List.length packed
    rw [bytesBitsLength, size] at this; omega
  have fieldBytes := finishWriterEmits (by rw [packed]; exact emits :
    Emits (writeFieldsAfterObuSize ⟨.fromValue raw, redundant, typeSpecific, extension⟩) (bytesBits (packBits k out)))
  have spanLength : (span.drop behind.bytePos).length = obuSize.toNat - behind.bytePos := by
    rw [List.length_drop, length]
  rw [spanLength] at shorter
  have total : k + payload'.length ≤ obuSize.toNat := by omega
  have register := obuSize.toNat_lt
  have exact' : (UInt32.ofNat (k + payload'.length)).toNat = k + payload'.length := by
    rw [UInt32.toNat_ofNat', Nat.mod_eq_of_lt (by omega)]
  have least : minimalLen (k + payload'.length) ≤ n := minimalLenLeast positive (by omega)
  have firstBits : (firstByteBits raw redundant trimmed extended).length = 8 := by simp [firstByteBits]
  refine ⟨UInt32.ofNat (k + payload'.length), packBits k out, fun valid => ⟨valid, fieldBytes, ?_, ?_⟩, ?_, ?_⟩
  · rw [exact', packedLength]
  · rw [exact']; omega
  · simp only [frameBits, raws, trim, ObuHeader.extensionFlag, extend, List.length_append, firstBits,
      ulebBitsLength, bytesBitsLength, packedLength, exact', length]
    omega
  · intro canonical whole
    subst whole
    have fieldsSame : packBits k out = span.take behind.bytePos := by
      apply bytesBitsInjective
      rw [packed, same canonical]
    have sizes : k = behind.bytePos := by
      have := congrArg List.length fieldsSame
      rw [packedLength, List.length_take, Nat.min_eq_left inside] at this
      exact this
    have sizeSame : k + (span.drop behind.bytePos).length = obuSize.toNat := by rw [spanLength]; omega
    simp only [frameBits, raws, trim, ObuHeader.extensionFlag, extend, sizeSame, UInt32.ofNat_toNat, fieldsSame,
      List.take_append_drop, canonical _ _ form]

end

theorem validateHeaderNormal {header : ObuHeader} (normal : Normal header) :
    validateHeader header = .ok () ∨ ∃ e, validateHeader header = .error e ∧
      (e.kind = .trimmingFlagNotAllowed ∨ e.kind = .redundantCopyNotAllowed) := by
  have gates : validateHeader header = validateHeader.gates header := by
    unfold validateHeader
    split
    · rename_i value kind
      have plain := normal.plain
      rw [kind] at plain
      exact if_neg plain
    · rfl
  rw [gates]
  unfold validateHeader.gates
  split_ifs
  · exact .inr ⟨_, rfl, .inl rfl⟩
  · exact .inr ⟨_, rfl, .inr rfl⟩
  · exact .inl rfl

end Iamf.Wire
