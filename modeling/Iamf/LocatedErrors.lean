import Iamf.Leb128

/-! Where a reader's failures point: into its own data, and not before the place it was started at. -/
namespace Iamf.Bits
open BitString TapeCodec ReadTape

def PointsInto (lo hi : Nat) (e : Error) : Prop := ∃ o, e.location = .inputOffset o ∧ lo ≤ o ∧ o ≤ hi

theorem pointsInput {lo hi o : Nat} (kind : ErrorKind) (behind : lo ≤ o) (before : o ≤ hi) :
    PointsInto lo hi (inputError kind o) := ⟨o, rfl, behind, before⟩

def Lands {T : Type} (lo hi ψ : Nat) (c : BitCursor) : EStateM.Result Error BitCursor T → Prop
  | .ok _ c' => c'.data = c.data ∧ lo ≤ c'.bytePos ∧ c'.bitOff = ψ
  | .error e _ => PointsInto lo hi e

def Locates {T : Type} (lo hi φ ψ : Nat) (f : Reader T) : Prop :=
  ∀ c : BitCursor, c.data.length = hi → lo ≤ c.bytePos → c.bitOff = φ → Lands lo hi ψ c (f c)

section

variable {T U : Type} {lo hi φ χ ψ : Nat}

theorem locatesOk {f : Reader T} (locates : Locates lo hi φ ψ f) {c c' : BitCursor} {v : T}
    (length : c.data.length = hi) (behind : lo ≤ c.bytePos) (offset : c.bitOff = φ) (ok : f c = .ok v c') :
    c'.data = c.data ∧ lo ≤ c'.bytePos ∧ c'.bitOff = ψ := by
  have located := locates c length behind offset
  rw [ok] at located
  exact located

theorem locatesError {f : Reader T} (locates : Locates lo hi φ ψ f) {c c' : BitCursor} {e : Error}
    (length : c.data.length = hi) (behind : lo ≤ c.bytePos) (offset : c.bitOff = φ) (failed : f c = .error e c') :
    PointsInto lo hi e := by
  have located := locates c length behind offset
  rw [failed] at located
  exact located

theorem locatesThen {f : Reader T} {k : T → Reader U} (first : Locates lo hi φ χ f)
    (next : ∀ v c c', f c = .ok v c' → Locates lo hi χ ψ (k v)) : Locates lo hi φ ψ (f >>= k) := by
  intro c length behind offset
  cases head : f c with
  | error e c' =>
    rw [bindError _ head]
    exact locatesError first length behind offset head
  | ok v c' =>
    rw [bindOf _ head]
    obtain ⟨data, behind', offset'⟩ := locatesOk first length behind offset head
    have landed := next v c c' head c' (by rw [data, length]) behind' offset'
    unfold Lands at landed ⊢
    rw [data] at landed
    exact landed

theorem locatesBind {f : Reader T} {k : T → Reader U} (first : Locates lo hi φ χ f)
    (next : ∀ v, Locates lo hi χ ψ (k v)) : Locates lo hi φ ψ (f >>= k) :=
  locatesThen first fun v _ _ _ => next v

theorem locatesPure (v : T) : Locates lo hi φ φ (pure v : Reader T) := by
  intro c length behind offset
  exact ⟨rfl, behind, offset⟩

theorem locatesThrow {e : Error} (points : PointsInto lo hi e) : Locates lo hi φ ψ (throw e : Reader T) := by
  intro c length behind offset
  exact points

theorem locatesEnsure {ok : Bool} {e : Error} (points : PointsInto lo hi e) : Locates lo hi φ φ (ensure ok e : Reader Unit) := by
  cases ok with
  | false => exact locatesThrow points
  | true => exact locatesPure ()

theorem locatesOrThrow {x : Except Error T} (points : ∀ e, x = .error e → PointsInto lo hi e) :
    Locates lo hi φ φ (orThrow x : Reader T) := by
  cases x with
  | error e => exact locatesThrow (points e rfl)
  | ok v => exact locatesPure v

theorem insideData (c : BitCursor) : c.bytePos ≤ c.data.length := by
  have inside := c.inData
  omega

theorem locatesPosition {k : Nat → Reader U} (next : ∀ start, lo ≤ start → start ≤ hi → Locates lo hi φ ψ (k start)) :
    Locates lo hi φ ψ (bytePosition >>= k) := by
  intro c length behind offset
  rw [bindOf _ (bytePositionOk c)]
  exact next c.bytePos behind (length ▸ insideData c) c length behind offset

theorem locatesRemaining : Locates lo hi φ φ bytesRemaining := by
  intro c length behind offset
  exact ⟨rfl, behind, offset⟩

theorem advanceMoves {n : Nat} {c : BitCursor} (inside : n ≤ (rest c).length) : (advance n c).data = c.data ∧
    c.bytePos ≤ (advance n c).bytePos ∧ (advance n c).bitOff = (c.bitOff + n) % 8 := by
  have moved : (advance n c).position = c.position + n := BitCursor.advancePosition inside
  have octet := (advance n c).inOctet
  have start := c.inOctet
  simp only [BitCursor.position] at moved
  exact ⟨rfl, by omega, by omega⟩

def Takes (n : Nat) (f : Reader T) : Prop :=
  ∀ c : BitCursor, n ≤ (rest c).length → ∃ v, f c = .ok v (advance n c)

theorem takesBind {m n : Nat} {f : Reader T} {k : T → Reader U} (first : Takes m f) (next : ∀ v, Takes n (k v)) :
    Takes (m + n) (f >>= k) := by
  intro c inside
  obtain ⟨v, head⟩ := first c (by omega)
  have behind := restAdvance m c (by omega)
  obtain ⟨u, tail⟩ := next v (advance m c) (by rw [behind, List.length_drop]; omega)
  exact ⟨u, by rw [bindOf _ head, tail, advanceAdd _ _ _ inside]⟩

theorem takesUnsigned {n : Nat} (small : n ≤ 64) : Takes n (readUnsigned n) := by
  intro c inside
  have front : ((rest c).take n).length = n := by rw [List.length_take]; omega
  have below : valueOf ((rest c).take n) < 2 ^ n := by
    have bound := valueOfLt ((rest c).take n)
    rw [front] at bound
    exact bound
  have reads := readsUnsigned c.bitOff small below c ((rest c).drop n) (by rw [phaseIsBitOff, Nat.mod_eq_of_lt c.inOctet])
    (by rw [← bitsOfUnique front, List.take_append_drop])
  rw [bitsOfLength] at reads
  exact ⟨_, reads⟩

theorem takesReturn {n : Nat} {f : Reader T} {k : T → Reader U} (first : Takes n f)
    (last : ∀ v, ∃ u, k v = pure u) : Takes n (f >>= k) := by
  intro c inside
  obtain ⟨v, head⟩ := first c inside
  obtain ⟨u, same⟩ := last v
  exact ⟨u, by rw [bindOf _ head, same]; rfl⟩

theorem takesBool : Takes 1 readBool := takesReturn (takesUnsigned (by omega)) fun _ => ⟨_, rfl⟩

theorem takesU8 {n : Nat} (small : n ≤ 64) : Takes n (readU8 n) := takesReturn (takesUnsigned small) fun _ => ⟨_, rfl⟩

theorem takesU32 {n : Nat} (small : n ≤ 64) : Takes n (readU32 n) := takesReturn (takesUnsigned small) fun _ => ⟨_, rfl⟩

theorem locatesUnsigned {n : Nat} (small : n ≤ 64) : Locates lo hi φ ((φ + n) % 8) (readUnsigned n) := by
  intro c length behind offset
  by_cases enough : n ≤ c.bitsRemaining
  · have inside : n ≤ (rest c).length := by change n ≤ c.rest.length; rw [BitCursor.restLength]; exact enough
    obtain ⟨v, ok⟩ := takesUnsigned small c inside
    obtain ⟨data, forward, phase⟩ := advanceMoves inside
    rw [ok, ← offset]
    exact ⟨data, Nat.le_trans behind forward, phase⟩
  · unfold readUnsigned
    simp only
    rw [if_neg (by omega), if_pos (by omega)]
    exact pointsInput _ behind (length ▸ insideData c)

theorem locatesReturn {f : Reader T} {k : T → Reader U} (first : Locates lo hi φ ψ f)
    (last : ∀ v, ∃ u, k v = pure u) : Locates lo hi φ ψ (f >>= k) := by
  refine locatesBind first fun v => ?_
  obtain ⟨u, same⟩ := last v
  rw [same]
  exact locatesPure u

theorem locatesBool : Locates lo hi φ ((φ + 1) % 8) readBool :=
  locatesReturn (locatesUnsigned (by omega)) fun _ => ⟨_, rfl⟩

theorem locatesU8 {n : Nat} (small : n ≤ 64) : Locates lo hi φ ((φ + n) % 8) (readU8 n) :=
  locatesReturn (locatesUnsigned small) fun _ => ⟨_, rfl⟩

theorem locatesU16 {n : Nat} (small : n ≤ 64) : Locates lo hi φ ((φ + n) % 8) (readU16 n) :=
  locatesReturn (locatesUnsigned small) fun _ => ⟨_, rfl⟩

theorem locatesU32 {n : Nat} (small : n ≤ 64) : Locates lo hi φ ((φ + n) % 8) (readU32 n) :=
  locatesReturn (locatesUnsigned small) fun _ => ⟨_, rfl⟩

theorem locatesU64 {n : Nat} (small : n ≤ 64) : Locates lo hi φ ((φ + n) % 8) (readU64 n) :=
  locatesReturn (locatesUnsigned small) fun _ => ⟨_, rfl⟩

theorem locatesOctet : Locates lo hi 0 0 (readU8 8) := locatesU8 (by omega)

theorem locatesI16 : Locates lo hi 0 0 readI16 := by
  refine locatesReturn (locatesPosition fun start behind before => ?_) fun _ => ⟨_, rfl⟩
  rw [if_neg (by omega)]
  exact locatesReturn (locatesUnsigned (by omega)) fun _ => ⟨_, rfl⟩

theorem locatesArray (n : Nat) : Locates lo hi 0 0 (readArray n) := by
  induction n with
  | zero => exact locatesPure _
  | succ n ih => exact locatesBind locatesOctet fun _ => locatesReturn ih fun _ => ⟨_, rfl⟩

theorem locatesStringFrom {start : Nat} (behind : lo ≤ start) (before : start ≤ hi) (room : Nat) (out : Bytes) :
    Locates lo hi 0 0 (readStringFrom start room out) := by
  induction room generalizing out with
  | zero => exact locatesThrow (pointsInput _ behind before)
  | succ room ih =>
    refine locatesBind (locatesUnsigned (by omega)) fun value => ?_
    simp only
    split
    · exact locatesPure _
    · exact ih _

theorem locatesString : Locates lo hi 0 0 readString :=
  locatesPosition fun _ behind before => locatesStringFrom behind before _ _

theorem locatesSpan (len : Nat) : Locates lo hi 0 0 (readUint8Span len) := by
  intro c length behind offset
  have aligned : c.isByteAligned = true := by simp [BitCursor.isByteAligned, offset]
  by_cases short : len > c.bytesRemaining
  · have failed : readUint8Span len c = .error (inputError .unexpectedEndOfInput c.bytePos) c := by
      simp [readUint8Span, aligned, short, BitCursor.bytePosition]
    rw [failed]
    exact pointsInput _ behind (length ▸ insideData c)
  · have ok : readUint8Span len c = .ok ((c.data.drop c.bytePos).take len) (c.skipBytes len (Nat.le_of_not_lt short)) := by
      simp [readUint8Span, aligned, short]
    rw [ok]
    exact ⟨rfl, Nat.le_add_right_of_le behind, offset⟩

theorem locatesMany {f : Reader T} (each : Locates lo hi 0 0 f) (n : Nat) : Locates lo hi 0 0 (readMany f n) := by
  induction n with
  | zero => exact locatesPure []
  | succ n ih => exact locatesBind each fun _ => locatesReturn ih fun _ => ⟨_, rfl⟩

end

theorem locatesGroups [UlebForm] {lo hi start : Nat} (behind : lo ≤ start) (before : start ≤ hi) (left acc shift : Nat) :
    Locates lo hi 0 0 (readGroups start left acc shift) := by
  induction left generalizing acc shift with
  | zero => exact locatesThrow (pointsInput _ behind before)
  | succ left ih =>
    refine locatesBind (locatesUnsigned (by omega)) fun byte => ?_
    simp only
    split
    · refine locatesBind (locatesEnsure (pointsInput _ behind before)) fun _ => ?_
      exact locatesBind (locatesEnsure (pointsInput _ behind before)) fun _ => locatesPure _
    · exact ih _ _

theorem locatesUleb128 [UlebForm] {lo hi : Nat} : Locates lo hi 0 0 readUleb128 :=
  locatesPosition fun _ behind before => locatesGroups behind before _ _ _

end Iamf.Bits
