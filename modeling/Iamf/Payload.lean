import Iamf.ObuFrame

/-! A payload and the bytes its syntax leaves over. Each payload syntax is a pair of a
writing and a reading function; what the two agree on is carried over to whole payloads here. -/
namespace Iamf.Wire
open Bits BitString TapeCodec ReadTape WriteTape

def readTrailing : Reader Bytes := do
  let remaining ← bytesRemaining
  readUint8Span remaining

theorem readTrailingOk {c : BitCursor} {bytes : Bytes} (aligned : c.bitOff = 0)
    (split : rest c = bytesBits bytes) :
    readTrailing c = .ok bytes (advance (bytesBits bytes).length c) := by
  have total := congrArg List.length split
  change c.rest.length = _ at total
  rw [BitCursor.restLength, bytesBitsLength] at total
  have remaining : c.bytesRemaining = bytes.length := by simp only [BitCursor.bytesRemaining]; omega
  unfold readTrailing
  rw [bindOf _ (bytesRemainingOk c), remaining]
  exact readSpanOk aligned (show rest c = bytesBits bytes ++ [] by rw [List.append_nil]; exact split)

theorem readTrailingSource {c c' : BitCursor} {bytes : Bytes} (ok : readTrailing c = .ok bytes c') :
    c.bitOff = 0 ∧ rest c = bytesBits bytes ∧ rest c' = [] := by
  unfold readTrailing at ok
  rw [bindOf _ (bytesRemainingOk c)] at ok
  obtain ⟨aligned, length, tail, split, moved⟩ := readSpanSource ok
  have total := congrArg List.length split
  rw [BitCursor.restLength, List.length_append, bytesBitsLength, length] at total
  have inData := c.inData
  have none : tail = [] := by
    apply List.length_eq_zero_iff.mp
    simp only [BitCursor.bytesRemaining, BitCursor.bitsRemaining] at total
    omega
  have whole : rest c = bytesBits bytes := by rw [none, List.append_nil] at split; exact split
  refine ⟨aligned, whole, ?_⟩
  rw [moved, restAdvance _ _ (by rw [whole]), whole, List.drop_length]

theorem consumesRemaining : Consumes bytesRemaining fun _ bs => bs = [] := by
  intro r v r' ok
  cases ok
  exact ⟨[], rest r, rfl, (advanceZero r).symm, rfl⟩

theorem consumesPosition : Consumes bytePosition fun _ bs => bs = [] := by
  intro r v r' ok
  cases ok
  exact ⟨[], rest r, rfl, (advanceZero r).symm, rfl⟩

theorem pairedPosition {T : Type} {φ ψ : Nat} {g : Writer Unit} {j : Nat → Reader T} {v : T}
    (paired : ∀ n, Paired φ ψ g (j n) v) : Paired φ ψ g (bytePosition >>= j) v := by
  rcases paired 0 with refused | ⟨bs, bsPhase, emits, _⟩
  · exact .inl refused
  refine .inr ⟨bs, bsPhase, emits, fun r tail offset split => ?_⟩
  rw [bindOf _ (bytePositionOk r)]
  rcases paired r.bytePos with refused | ⟨cs, _, emits', reads⟩
  · exact absurd refused (emitsNotRefuses emits)
  · cases emitsUnique emits emits'
    exact reads r tail offset split

theorem hungryPosition {T : Type} {j : Nat → Reader T} (hungry : ∀ n, Hungry (j n)) :
    Hungry (bytePosition >>= j) := by
  intro r empty
  obtain ⟨e, r', failed⟩ := hungry r.bytePos r empty
  exact ⟨e, r', by rw [bindOf _ (bytePositionOk r), failed]⟩

theorem pairedRemaining {T : Type} {φ ψ : Nat} {g : Writer Unit} {j : Nat → Reader T} {v : T}
    (paired : ∀ n, Paired φ ψ g (j n) v) : Paired φ ψ g (bytesRemaining >>= j) v := by
  rcases paired 0 with refused | ⟨bs, bsPhase, emits, _⟩
  · exact .inl refused
  refine .inr ⟨bs, bsPhase, emits, fun r tail offset split => ?_⟩
  rw [bindOf _ (bytesRemainingOk r)]
  rcases paired r.bytesRemaining with refused | ⟨cs, _, emits', reads⟩
  · exact absurd refused (emitsNotRefuses emits)
  · cases emitsUnique emits emits'
    exact reads r tail offset split

theorem pairedEnough {T : Type} {φ ψ n : Nat} {e : Error} {g : Writer Unit} {f : Reader T} {v : T}
    (paired : Paired φ ψ g f v) (long : ∀ bs, Emits g bs → 8 * n ≤ bs.length) :
    Paired φ ψ g (bytesRemaining >>= fun remaining => ensure (!(n > remaining)) e >>= fun _ => f) v := by
  rcases paired with refused | ⟨bs, bsPhase, emits, reads⟩
  · exact .inl refused
  refine .inr ⟨bs, bsPhase, emits, fun r tail offset split => ?_⟩
  have enough := long bs emits
  have total := congrArg List.length split
  change r.rest.length = _ at total
  rw [BitCursor.restLength, List.length_append] at total
  have room : n ≤ r.bytesRemaining := by simp only [BitCursor.bytesRemaining]; omega
  rw [bindOf _ (bytesRemainingOk r), decide_eq_false (Nat.not_lt.mpr room), Bool.not_false, ensureTrue,
    bindOf _ (pureOk () r)]
  exact reads r tail offset split

theorem pairedEnoughBind {T U : Type} {φ χ ψ n : Nat} {e : Error} {g : Writer Unit} {k : Unit → Writer Unit}
    {f : Reader T} {j : T → Reader U} {v : T} {u : U} (first : Paired φ χ g f v)
    (long : ∀ bs, Emits g bs → 8 * n ≤ bs.length) (next : Paired χ ψ (k ()) (j v) u) :
    Paired φ ψ (g >>= k)
      (bytesRemaining >>= fun remaining => ensure (!(n > remaining)) e >>= fun _ => f >>= j) u := by
  refine pairedEnough (pairedBind first next) fun bs emits => ?_
  rcases first with refused | ⟨cs, _, first, _⟩
  · exact absurd (refusesBind k refused) (emitsNotRefuses emits)
  rcases next with refused | ⟨ds, _, others, _⟩
  · exact absurd (refusesNext first refused) (emitsNotRefuses emits)
  rw [emitsUnique emits (emitsBind first others), List.length_append]
  exact Nat.le_add_right_of_le (long cs first)

-- a count that cannot be met from what is left is refused before the loop, so a hostile count costs nothing
def readBounded {T : Type} (item : Reader T) (count start : Nat) : Reader (List T) := do
  let remaining ← bytesRemaining
  ensure (!(count > remaining)) (inputError .unexpectedEndOfInput start)
  readMany item count

def readCounted [UlebForm] {T : Type} (item : Reader T) : Reader (List T) := do
  let start ← bytePosition
  let count ← readUleb128
  readBounded item count.toNat start

def writeCount (count : Nat) (field : String) : Writer Unit := do
  ensure (count ≤ u32Max) ⟨.obuTooLarge, .field field⟩
  writeUleb128Minimal (UInt32.ofNat count)

def writeCounted {T : Type} (item : T → Writer Unit) (vs : List T) (field : String) : Writer Unit := do
  writeCount vs.length field
  writeEach item vs

theorem countFits {len : Nat} (small : len ≤ u32Max) : (UInt32.ofNat len).toNat = len := by
  rw [UInt32.toNat_ofNat', Nat.mod_eq_of_lt (by simp only [u32Max] at small; omega)]

theorem pairedCount {T : Type} {φ ψ len : Nat} {field : String} {k : Unit → Writer Unit} {j : UInt32 → Reader T}
    {u : T} (next : (UInt32.ofNat len).toNat = len → Paired φ ψ (k ()) (j (UInt32.ofNat len)) u) :
    Paired φ ψ (writeCount len field >>= k) (readUleb128 >>= j) u := by
  by_cases small : len ≤ u32Max
  · have opened : (writeCount len field >>= k) = (writeUleb128Minimal (UInt32.ofNat len) >>= k) := by
      unfold writeCount
      rw [decide_eq_true small, ensureTrue]
      rfl
    rw [opened]
    exact pairedBind (pairedUleb128 φ (UInt32.ofNat len)) (next (countFits small))
  · exact .inl (refusesBind _ (refusesBind _ (refusesEnsure (decide_eq_false small))))

theorem pairedCountAlone (φ len : Nat) (field : String) :
    Paired φ φ (writeCount len field) readUleb128 (UInt32.ofNat len) :=
  pairedGuard fun _ => pairedUleb128 φ (UInt32.ofNat len)

theorem rewritesCount {canonical : Prop} {len : Nat} {n : UInt32} {field : String} {bs : List Bool}
    (length : len = n.toNat) (rewrites : Rewrites canonical (writeUleb128Minimal n) bs) :
    Rewrites canonical (writeCount len field) bs := by
  have register := n.toNat_lt
  refine rewritesGuard (decide_eq_true (by simp only [u32Max]; omega)) ?_
  rwa [length, UInt32.ofNat_toNat]

theorem longEnough {T : Type} {g : T → Writer Unit} {f : Reader T} {vs : List T} (hungry : Hungry f)
    (each : ∀ v ∈ vs, Paired 0 0 (g v) f v) : ∀ bs, Emits (writeEach g vs) bs → 8 * vs.length ≤ bs.length := by
  intro bs emits
  rcases manyOctets (r := BitCursor.new []) hungry rfl each with refused | ⟨cs, octets, long, emits', _⟩
  · exact absurd refused (emitsNotRefuses emits)
  · rwa [emitsUnique emits emits']

theorem pairedBounded {T : Type} {g : T → Writer Unit} {f : Reader T} {vs : List T} (start : Nat)
    (hungry : Hungry f) (each : ∀ v ∈ vs, Paired 0 0 (g v) f v) :
    Paired 0 0 (writeEach g vs) (readBounded f vs.length start) vs :=
  pairedEnough (pairedMany each) (longEnough hungry each)

theorem pairedCounted {T : Type} {g : T → Writer Unit} {f : Reader T} {vs : List T} {field : String}
    (hungry : Hungry f) (each : ∀ v ∈ vs, Paired 0 0 (g v) f v) :
    Paired 0 0 (writeCounted g vs field) (readCounted f) vs := by
  refine pairedPosition fun start => pairedCount fun fits => ?_
  rw [fits]
  exact pairedBounded start hungry each

theorem hungryCounted [UlebForm] {T : Type} {f : Reader T} : Hungry (readCounted f) := by
  intro r empty
  obtain ⟨e, r', failed⟩ := hungryUleb128 r empty
  refine ⟨e, r', ?_⟩
  unfold readCounted
  rw [bindOf _ (bytePositionOk r), bindError _ failed]

theorem consumesBounded {T : Type} {canonical : Prop} {g : T → Writer Unit} {f : Reader T} {G : T → Prop}
    (count start : Nat) (each : Consumes f fun v bs => Rewrites canonical (g v) bs ∧ G v) :
    Consumes (readBounded f count start) fun vs bs => vs.length = count ∧
      Rewrites canonical (writeEach g vs) bs ∧ ∀ v ∈ vs, G v := by
  refine consumesBind consumesRemaining fun n bs empty => ?_
  subst empty
  exact consumesEnsure fun _ => rewritesMany count each

theorem consumesCounted [UlebForm] {T : Type} {g : T → Writer Unit} {f : Reader T} {G : T → Prop} (field : String)
    (each : Consumes f fun v bs => Rewrites Canonical (g v) bs ∧ G v) :
    Consumes (readCounted f) fun vs bs => Rewrites Canonical (writeCounted g vs field) bs ∧ ∀ v ∈ vs, G v := by
  refine consumesBind consumesPosition fun start bs empty => ?_
  subst empty
  simp only [List.nil_append]
  refine consumesBind consumesUleb128 fun count cs first => ?_
  refine consumesMono (consumesBounded count.toNat start each) fun vs ds ⟨length, every, good⟩ => ?_
  exact ⟨rewritesBind (rewritesCount length first) every, good⟩

theorem consumesTrailing : Consumes readTrailing fun bytes bs => bs = bytesBits bytes := by
  refine consumesBind consumesRemaining fun n bs empty => ?_
  refine consumesMono (consumesSpan n) fun bytes cs ⟨_, bits⟩ => ?_
  rw [empty, bits, List.nil_append]

section

variable {T U : Type}

theorem parsePayloadIs (parse : Reader T) (payload : Bytes) : parsePayload parse payload =
    match parse (BitCursor.new payload) with
    | .error e _ => .error e
    | .ok value behind =>
      match readTrailing behind with
      | .error e _ => .error e
      | .ok trailing _ => .ok (value, trailing) := by
  unfold parsePayload
  cases parse (BitCursor.new payload) with
  | error e s => rfl
  | ok value behind =>
    have read : readTrailing behind = readUint8Span behind.bytesRemaining behind := bindOf _ (bytesRemainingOk behind)
    cases taken : readUint8Span behind.bytesRemaining behind with
    | error e s => simp only [read, taken]
    | ok trailing s => simp only [read, taken]

theorem parsePayloadSource {parse : Reader T} {payload trailing : Bytes} {v : T}
    (ok : parsePayload parse payload = .ok (v, trailing)) : ∃ behind, parse (BitCursor.new payload) = .ok v behind ∧
      behind.bitOff = 0 ∧ rest behind = bytesBits trailing := by
  rw [parsePayloadIs] at ok
  cases parsed : parse (BitCursor.new payload) with
  | error e s => simp [parsed] at ok
  | ok value behind =>
    simp only [parsed] at ok
    cases rest : readTrailing behind with
    | error e s => simp [rest] at ok
    | ok bytes s =>
      simp only [rest, Except.ok.injEq, Prod.mk.injEq] at ok
      obtain ⟨rfl, rfl⟩ := ok
      obtain ⟨aligned, split, _⟩ := readTrailingSource rest
      exact ⟨behind, rfl, aligned, split⟩

theorem parsePayloadOf {parse : Reader T} {payload trailing : Bytes} {v : T} {behind : BitCursor}
    (parsed : parse (BitCursor.new payload) = .ok v behind) (aligned : behind.bitOff = 0)
    (split : rest behind = bytesBits trailing) : parsePayload parse payload = .ok (v, trailing) := by
  rw [parsePayloadIs, parsed]
  simp only [readTrailingOk aligned split]

theorem parsePayloadTrailing {body : Reader T} {pack : T → Bytes → U} {payload left : Bytes} {u : U} :
    parsePayload (do
        let v ← body
        let trailing ← readTrailing
        pure (pack v trailing)) payload = .ok (u, left) ↔
      left = [] ∧ ∃ v trailing, parsePayload body payload = .ok (v, trailing) ∧ u = pack v trailing := by
  constructor
  · intro ok
    obtain ⟨behind, parsed, aligned, split⟩ := parsePayloadSource ok
    obtain ⟨v, c1, first, tail⟩ := bindOk parsed
    obtain ⟨trailing, c2, second, last⟩ := bindOk tail
    cases last
    obtain ⟨aligned1, split1, end2⟩ := readTrailingSource second
    rw [end2] at split
    have none : left = [] := by
      have length := congrArg List.length split
      simp at length
      exact length
    exact ⟨none, v, trailing, parsePayloadOf first aligned1 split1, rfl⟩
  · rintro ⟨rfl, v, trailing, ok, rfl⟩
    obtain ⟨c1, first, aligned, split⟩ := parsePayloadSource ok
    have second := readTrailingOk aligned split
    obtain ⟨_, behind⟩ := advanceAligned (k := trailing.length) aligned (by rw [split, bytesBitsLength])
    rw [← bytesBitsLength] at behind
    have parsed : (do
        let v ← body
        let trailing ← readTrailing
        pure (pack v trailing)) (BitCursor.new payload) =
          .ok (pack v trailing) (advance (bytesBits trailing).length c1) := by
      rw [bindOf _ first, bindOf _ second]; rfl
    refine parsePayloadOf parsed behind ?_
    · rw [restAdvance _ _ (by rw [split]), split, List.drop_length]; rfl

theorem consumedLength {f : Reader T} {r : BitCursor} {v : T} {n k : Nat} (ok : f r = .ok v (advance n r))
    (inside : n ≤ (rest r).length) (consumes : Consumes f fun _ bs => bs.length = k) : n = k := by
  obtain ⟨bs, tail, split, moved, length⟩ := consumes _ _ _ ok
  have inside' : bs.length ≤ (rest r).length := by rw [split]; simp
  have positions : (BitCursor.advance n r).position = (BitCursor.advance bs.length r).position :=
    congrArg BitCursor.position moved
  rw [BitCursor.advancePosition inside, BitCursor.advancePosition inside'] at positions
  omega

/-- Settled values are given back by the reader, with the bytes left over behind them. -/
def WritesBack (parse : Reader T) (write : T → Writer Unit) (Settled : T → Bytes → Prop) : Prop :=
  ∀ v bytes trailing, Settled v trailing → finishWriter (write v) = .ok bytes →
    parsePayload parse (bytes ++ trailing) = .ok (v, trailing)

def ReadsBack (canonical : Prop) (parse : Reader T) (write : T → Writer Unit) (Settled : T → Bytes → Prop) : Prop :=
  ∀ payload v trailing, parsePayload parse payload = .ok (v, trailing) → Settled v trailing ∧
    ∃ bytes, finishWriter (write v) = .ok bytes ∧ bytes.length + trailing.length ≤ payload.length ∧
      (canonical → bytes ++ trailing = payload)

theorem parsePayloadPaired {g : Writer Unit} {f : Reader T} {v : T} {bytes : Bytes}
    (paired : Paired 0 0 g f v) (ok : finishWriter g = .ok bytes) (trailing : Bytes) :
    parsePayload f (bytes ++ trailing) = .ok (v, trailing) := by
  rcases paired with refused | ⟨bs, _, emits, reads⟩
  · obtain ⟨e, failed⟩ := finishWriterRefuses refused
    rw [ok] at failed
    contradiction
  have bits := finishWriterSource emits ok
  subst bits
  have whole : rest (BitCursor.new (bytes ++ trailing)) = bytesBits bytes ++ bytesBits trailing := by
    rw [← bytesBitsAppend]; rfl
  have parsed := reads _ _ (phaseIsBitOff _) whole
  obtain ⟨_, aligned⟩ := advanceAligned (c := BitCursor.new (bytes ++ trailing)) (k := bytes.length) rfl
    (by rw [whole]; simp)
  rw [← bytesBitsLength] at aligned
  exact parsePayloadOf parsed aligned (by rw [restAdvance _ _ (by rw [whole]; simp), whole, List.drop_left])

theorem parsePayloadLast {g : Writer Unit} {f : Reader T} {v : T} {bytes : Bytes}
    (paired : PairedLast 0 g f v) (ok : finishWriter g = .ok bytes) : parsePayload f bytes = .ok (v, []) := by
  rcases paired with refused | ⟨bs, _, emits, reads⟩
  · obtain ⟨e, failed⟩ := finishWriterRefuses refused
    rw [ok] at failed
    contradiction
  have bits := finishWriterSource emits ok
  subst bits
  have parsed := reads (BitCursor.new bytes) (phaseIsBitOff _) rfl
  have whole : rest (BitCursor.new bytes) = bytesBits bytes := rfl
  obtain ⟨_, aligned⟩ := advanceAligned (c := BitCursor.new bytes) (k := bytes.length) rfl (by rw [whole]; simp)
  rw [← bytesBitsLength] at aligned
  exact parsePayloadOf parsed aligned (by rw [restAdvance _ _ (by rw [whole]), whole, List.drop_length]; rfl)

theorem pairedEmpty (φ : Nat) (v : T) : Paired φ φ (writeBytes []) (pure v : Reader T) v :=
  .inr ⟨[], rfl, emitsBytes [], readsPure φ v⟩

theorem pairedLastEmpty {φ : Nat} {g : Writer Unit} {f : Reader T} {j : T → Reader U} {v : T} {u : U}
    (first : PairedLast φ g f v) (last : j v = pure u) :
    PairedLast φ (g >>= fun _ => writeBytes []) (f >>= j) u := by
  rcases pairedLastReturn first last with refused | ⟨bs, bsPhase, emits, reads⟩
  · exact .inl (refusesBind _ refused)
  · refine .inr ⟨bs, bsPhase, ?_, reads⟩
    have both := emitsBind (k := fun _ => writeBytes []) emits (emitsBytes [])
    rwa [bytesBitsNil, List.append_nil] at both

theorem pairedLastTrailing (bytes : Bytes) : PairedLast 0 (writeBytes bytes) readTrailing bytes := by
  refine .inr ⟨bytesBits bytes, by simp, emitsBytes bytes, fun r offset split => ?_⟩
  exact readTrailingOk (by rw [← phaseIsBitOff, offset]) split

theorem parsePayloadRewritesIf {canonical : Prop} {write : T → Writer Unit} {f : Reader T} {Q G : T → Prop}
    {v : T} {payload trailing : Bytes}
    (consumes : Consumes f fun v bs => (G v → Rewrites canonical (write v) bs) ∧ Q v)
    (ok : parsePayload f payload = .ok (v, trailing)) : Q v ∧ (G v →
      ∃ bytes, finishWriter (write v) = .ok bytes ∧ bytes.length + trailing.length ≤ payload.length ∧
        (canonical → bytes ++ trailing = payload)) := by
  obtain ⟨behind, parsed, aligned, split⟩ := parsePayloadSource ok
  obtain ⟨bs, tail, whole, moved, rewrites, post⟩ := consumes _ _ _ parsed
  refine ⟨post, fun able => ?_⟩
  obtain ⟨out, emits, short, octet, same⟩ := rewrites able
  have start : rest (BitCursor.new payload) = bytesBits payload := rfl
  have tailIs : tail = bytesBits trailing := by
    rw [← split, moved, restAdvance _ _ (by rw [whole]; simp), whole, List.drop_left]
  rw [start, tailIs] at whole
  have total := congrArg List.length whole
  rw [List.length_append, bytesBitsLength, bytesBitsLength] at total
  obtain ⟨k, size⟩ : ∃ k, out.length = 8 * k := ⟨out.length / 8, by omega⟩
  have packed := packBitsExact k out size
  have length := congrArg List.length packed
  rw [bytesBitsLength] at length
  refine ⟨packBits k out, finishWriterEmits (by rw [packed]; exact emits), by omega, fun canon => ?_⟩
  apply bytesBitsInjective
  rw [bytesBitsAppend, packed, same canon, whole]

theorem parsePayloadRewrites {canonical : Prop} {write : T → Writer Unit} {f : Reader T} {Q : T → Prop} {v : T}
    {payload trailing : Bytes} (consumes : Consumes f fun v bs => Rewrites canonical (write v) bs ∧ Q v)
    (ok : parsePayload f payload = .ok (v, trailing)) : Q v ∧ ∃ bytes, finishWriter (write v) = .ok bytes ∧
      bytes.length + trailing.length ≤ payload.length ∧ (canonical → bytes ++ trailing = payload) := by
  obtain ⟨post, bytes⟩ := parsePayloadRewritesIf (G := fun _ => True)
    (consumesMono consumes fun v bs ⟨rewrites, post⟩ => ⟨fun _ => rewrites, post⟩) ok
  exact ⟨post, bytes trivial⟩

theorem writesBackOf {parse : Reader T} {write : T → Writer Unit} {Q : T → Prop}
    (paired : ∀ v, Q v → Paired 0 0 (write v) parse v) : WritesBack parse write fun v _ => Q v :=
  fun v _ trailing settled ok => parsePayloadPaired (paired v settled) ok trailing

theorem readsBackOf {canonical : Prop} {parse : Reader T} {write : T → Writer Unit} {Q : T → Prop}
    (consumes : Consumes parse fun v bs => Rewrites canonical (write v) bs ∧ Q v) :
    ReadsBack canonical parse write fun v _ => Q v :=
  fun _ _ _ ok => parsePayloadRewrites consumes ok

end

end Iamf.Wire
