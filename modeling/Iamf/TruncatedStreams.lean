import Iamf.CutReaders
import Iamf.RepeatedDescriptors
import Iamf.ThinnedStreams

/-! A stream that ends too early: every OBU that lies in what is left is read, and of the next one
nothing is said but that its bytes are missing. -/
namespace Iamf.Wire
open Bits BitString TapeCodec ReadTape

theorem truncatesPeek {T : Type} {f : Reader T} (truncates : Truncates f) : Truncates (peek f) := by
  intro c c' v d cut ok
  unfold peek at ok ⊢
  cases ran : f c with
  | error e r =>
    rw [ran] at ok
    cases ok
  | ok w r =>
    rw [ran] at ok
    cases ok
    have early := truncates c c' v r cut ran
    generalize f c' = result at early
    cases early with
    | same _ => exact .same cut
    | ended kind => exact .ended kind

theorem truncatesFirstByte : Truncates readFirstByte :=
  truncatesBind (truncatesU8 5) fun _ => truncatesBind truncatesBool fun _ => truncatesBind truncatesBool fun _ =>
    truncatesBind truncatesBool fun _ => truncatesPure _

theorem baseKind (base : Nat) (e : Error) : (e.withInputBase base).kind = e.kind := by
  unfold Error.withInputBase
  split <;> rfl

theorem windowIs {c : BitCursor} {n : Nat} (aligned : c.bitOff = 0) (inside : n ≤ c.bytesRemaining) :
    peek (subReader n) c = .ok (.new ((c.data.drop c.bytePos).take n)) c := by
  have aligned' : ¬ c.isByteAligned = false := by
    unfold BitCursor.isByteAligned
    rw [aligned]
    exact Bool.noConfusion
  have span : readUint8Span n c = .ok ((c.data.drop c.bytePos).take n) (c.skipBytes n inside) := by
    unfold readUint8Span
    simp only [if_neg aligned', dif_neg (Nat.not_lt.mpr inside)]
  have window : subReader n c = .ok (.new ((c.data.drop c.bytePos).take n)) (c.skipBytes n inside) := bindOf _ span
  unfold peek
  rw [window]

theorem peekAligned {c d : BitCursor} {n : Nat} (ok : peek (subReader n) c = .ok d c) : c.bitOff = 0 := by
  by_contra unaligned
  have unaligned' : c.isByteAligned = false := beq_eq_false_iff_ne.mpr unaligned
  have span : readUint8Span n c = .error (inputError .notByteAligned c.bytePosition) c := if_pos unaligned'
  have window : subReader n c = .error (inputError .notByteAligned c.bytePosition) c := bindError _ span
  unfold peek at ok
  rw [window] at ok
  cases ok

theorem windowCut {c c' d : BitCursor} {n : Nat} (cut : Cut c c')
    (ok : peek (subReader (min n c.bytesRemaining)) c = .ok d c) :
    ∃ d', peek (subReader (min n c'.bytesRemaining)) c' = .ok d' c' ∧ Cut d d' ∧ (n ≤ c'.bytesRemaining → d' = d) := by
  have aligned := peekAligned ok
  have aligned' : c'.bitOff = 0 := cut.bitOff.trans aligned
  have fewer := cutRemaining cut
  rw [windowIs aligned (Nat.min_le_right _ _)] at ok
  cases ok
  refine ⟨_, windowIs aligned' (Nat.min_le_right _ _), ?_, fun enough => ?_⟩
  · rw [cutSlice cut (Nat.min_le_right _ _) aligned']
    exact cutNew (List.take_prefix_take_left (min_le_min_left n fewer))
  · rw [cutSlice cut (Nat.min_le_right _ _) aligned', Nat.min_eq_left enough, Nat.min_eq_left (enough.trans fewer)]

section

variable [UlebForm]

theorem truncatesTypeSpecific (obuType : ObuType) (trimmed : Bool) : Truncates (readTypeSpecific obuType trimmed) := by
  unfold readTypeSpecific
  split_ifs
  · exact truncatesBind truncatesUleb128 fun _ => truncatesBind truncatesUleb128 fun _ => truncatesPure _
  · exact truncatesPure _
  · exact truncatesPure _

theorem truncatesExtension (extended : Bool) : Truncates (readExtension extended) := by
  unfold readExtension
  split_ifs
  · exact truncatesBind (truncatesBind truncatesUleb128 fun _ => truncatesSpan _) fun _ => truncatesPure _
  · exact truncatesPure _

theorem truncatesFields (obuType : ObuType) (trimmed extended : Bool) :
    Truncates (readFieldsAfterObuSize obuType trimmed extended) :=
  truncatesBind (truncatesTypeSpecific obuType trimmed) fun _ => truncatesBind (truncatesExtension _) fun _ => truncatesPure _

theorem truncatesObuSize : Truncates readObuSize :=
  truncatesBind truncatesPosition fun _ => truncatesBind truncatesUleb128 fun _ =>
    truncatesBind truncatesPosition fun _ => truncatesBind (truncatesEnsure _ _) fun _ =>
      truncatesBind (truncatesOrThrow _) fun _ => truncatesPure _

theorem truncatesHeaderParts : Truncates readObuHeaderParts := by
  refine truncatesBind truncatesPosition fun obuStart => truncatesBind truncatesFirstByte fun first =>
    truncatesBind truncatesObuSize fun obuSize => truncatesBind truncatesPosition fun afterSizeStart => ?_
  intro c c' v d cut ok
  obtain ⟨available, c1, counted, ok⟩ := bindOk ok
  cases counted
  obtain ⟨window, c2, peeked, ok⟩ := bindOk ok
  cases peekOk peeked
  obtain ⟨window', peeked', cutWindow, whole⟩ := windowCut cut peeked
  rw [bindOf _ (bytesRemainingOk c'), bindOf _ peeked']
  have early := truncatesFields first.1 first.2.2.1 first.2.2.2 window window'
  cases fields : readFieldsAfterObuSize first.1 first.2.2.1 first.2.2.2 window with
  | error e r =>
    simp only [fields] at ok
    cases ok
  | ok parts behind =>
    simp only [fields] at ok
    have early' := early parts behind cutWindow fields
    cases fields' : readFieldsAfterObuSize first.1 first.2.2.1 first.2.2.2 window' with
    | ok parts' behind' =>
      rw [fields'] at early'
      cases early' with
      | same cutBehind =>
        simp only []
        have span := truncatesBind (truncatesSpan behind.bytePosition) fun _ => truncatesPure
          (⟨first.1, first.2.1, parts.1, parts.2⟩, obuSize, behind.bytePosition) (T := ObuHeader × UInt32 × Nat)
        have same : behind'.bytePosition = behind.bytePosition := cutBehind.bytePos
        rw [same]
        exact span c c' v d cut ok
    | error e r =>
      rw [fields'] at early'
      cases early' with
      | ended kind =>
        simp only []
        refine .ended ?_
        have missing : ¬ obuSize.toNat ≤ c'.bytesRemaining := by
          intro enough
          rw [whole enough, fields] at fields'
          cases fields'
        unfold windowError
        rw [decide_eq_false missing, Bool.false_and, if_neg Bool.false_ne_true, baseKind]
        exact kind

theorem truncatesSpanOf : Truncates readObuSpan :=
  truncatesBind truncatesPosition fun _ => truncatesBind truncatesHeaderParts fun _ =>
    truncatesBind (truncatesEnsure _ _) fun _ => truncatesBind (truncatesSpan _) fun _ => truncatesPure _

theorem truncatesInspect : Truncates inspectHeader :=
  truncatesBind (truncatesBind truncatesHeaderParts fun _ => truncatesPure _) fun _ =>
    truncatesBind truncatesPosition fun _ => truncatesPure _

theorem truncatesObu {T : Type} (parse : ObuHeader → Reader T) : Truncates (readObuWithHeader parse) :=
  truncatesBind truncatesSpanOf fun _ => truncatesBind (truncatesOrThrow _) fun _ => truncatesPure _

theorem truncatesNextObu (registry : ParamDefinitionRegistry) : Truncates (nextObu registry) := by
  have reads {T U : Type} (parse : Reader T) (k : Obu T → U) :
      Truncates (readObuWith parse >>= fun obu => pure (k obu)) :=
    truncatesBind (truncatesObu _) fun _ => truncatesPure _
  refine truncatesBind (truncatesPeek truncatesInspect) fun inspected => ?_
  obtain ⟨header, base⟩ := inspected
  simp only []
  split
  · exact reads _ _
  · exact reads _ _
  · exact reads _ _
  · exact reads _ _
  · refine truncatesBind (truncatesPeek (truncatesObu _)) fun seen => ?_
    split_ifs
    · exact reads _ _
    · exact reads _ _
  · exact reads _ _
  · exact reads _ _
  · exact truncatesBind (truncatesObu _) fun _ => truncatesPure _

end

theorem cutPoint {T : Type} (pieces : List (List T)) {n : Nat} (inside : n ≤ pieces.flatten.length) :
    ∃ k ≤ pieces.length, (pieces.take k).flatten.length ≤ n ∧
      (∀ piece, pieces[k]? = some piece → n < (pieces.take k).flatten.length + piece.length) ∧
      (pieces[k]? = none → n = pieces.flatten.length ∧ pieces.take k = pieces) := by
  induction pieces generalizing n with
  | nil => exact ⟨0, Nat.le_refl _, Nat.zero_le _, nofun, fun _ => ⟨Nat.le_zero.mp inside, rfl⟩⟩
  | cons piece pieces ih =>
    by_cases here : n < piece.length
    · exact ⟨0, Nat.zero_le _, Nat.zero_le _, fun first same => by cases same; simpa using here, nofun⟩
    · rw [List.flatten_cons, List.length_append] at inside
      obtain ⟨k, few, low, next, last⟩ := ih (show n - piece.length ≤ pieces.flatten.length by omega)
      have front : ((piece :: pieces).take (k + 1)).flatten.length = piece.length + (pieces.take k).flatten.length := by
        rw [List.take_succ_cons, List.flatten_cons, List.length_append]
      refine ⟨k + 1, Nat.succ_le_succ few, by omega, fun other found => ?_, fun none => ?_⟩
      · have := next other found
        omega
      · obtain ⟨whole, all⟩ := last none
        rw [List.flatten_cons, List.length_append, List.take_succ_cons, all]
        exact ⟨by omega, rfl⟩

theorem slicesSplit {r last : ParamDefinitionRegistry} {xs ys : List (Bytes × SequenceObu)}
    (slices : Slices r (xs ++ ys) last) : ∃ mid, Slices r xs mid ∧ Slices mid ys last := by
  induction xs generalizing r with
  | nil => exact ⟨r, .nil, slices⟩
  | cons x xs ih =>
    cases slices with
    | cons whole decodes tail =>
      obtain ⟨mid, front, back⟩ := ih tail
      exact ⟨mid, .cons whole decodes front, back⟩

theorem collectStops {T : Type} (values : List T) (e : Error) (items : List (Except Error T)) :
    collectItems (values.map .ok ++ .error e :: items) = .error e := by
  induction values with
  | nil => rfl
  | cons value values ih =>
    rw [List.map_cons, List.cons_append, collectItems, exceptBindOf _ (show Except.ok value = .ok value from rfl), ih]
    rfl

theorem parseStops {input : Bytes} {xs : List SequenceObu} {s s' : SequenceReader} {e : Error}
    (yields : Yields (.new input) xs s) (few : xs.length ≤ input.length) (fails : s.next = (some (.error e), s')) :
    parseSequence input = .error e := by
  obtain ⟨calls, more⟩ : ∃ calls, input.length + 1 = xs.length + (calls + 1) := ⟨input.length - xs.length, by omega⟩
  have stop : s.take (calls + 1) = .error e :: s'.take calls := by rw [SequenceReader.take, fails]
  unfold parseSequence
  rw [more, takeYields yields, stop, collectStops]
  rfl

theorem nextCut {r last : ParamDefinitionRegistry} {slice : Bytes} {obu : SequenceObu}
    {others : List (Bytes × SequenceObu)} (slices : Slices r ((slice, obu) :: others) last) {c c' : BitCursor} (cut : Cut c c')
    (aligned : c.bitOff = 0) (split : rest c = bytesBits slice ++ bytesBits (others.flatMap (·.1)))
    (more : c'.bytePos < c'.data.length) (missing : c'.data.length < c'.bytePos + slice.length) :
    ∃ e s', SequenceReader.next ⟨c', r, false⟩ = (some (.error e), s') ∧ e.kind = .unexpectedEndOfInput := by
  cases slices with
  | cons whole decodes _ =>
  have span := readsObuSpan (wholeObuSource whole) c _ ((phaseIsBitOff c).trans aligned) split
  have early := truncatesNextObu r c c' _ _ cut (nextObuOk.mpr ⟨_, _, span, decodes⟩)
  have aligned' : c'.bitOff = 0 := cut.bitOff.trans aligned
  cases ran : nextObu r c' with
  | ok found d' =>
    -- the OBU would have to lie before the cut
    rw [ran] at early
    obtain ⟨_, _, span', _⟩ := nextObuOk.mp ran
    obtain ⟨frame, _, _, moved, _⟩ := readObuSpanSource aligned' span'
    cases early with
    | same cut' =>
      have data : d'.data = c'.data := by rw [moved]; rfl
      have behind := (advanceAligned (k := slice.length) aligned (by rw [split]; simp)).1
      rw [← bytesBitsLength] at behind
      have place := cut'.bytePos.trans behind
      have inData := d'.inData
      rw [data, place, ← cut.bytePos] at inData
      omega
  | error e d' =>
    rw [ran] at early
    cases early with
    | ended kind =>
      refine ⟨e, ⟨c', r, true⟩, ?_, kind⟩
      have left : (c'.bytesRemaining == 0) = false := by
        unfold BitCursor.bytesRemaining BitCursor.bitsRemaining
        rw [beq_eq_false_iff_ne, aligned']
        omega
      unfold SequenceReader.next
      simp only [left, Bool.or_self, Bool.false_eq_true, if_false, ran]

theorem stoppedBehind {mid last : ParamDefinitionRegistry} {a bytes slice : Bytes} {xs : List SequenceObu}
    {obu : SequenceObu} {others : List (Bytes × SequenceObu)} (source : SequenceSource .new (bytesBits a) xs mid)
    (back : Slices mid ((slice, obu) :: others) last) (parts : bytes = a ++ ((slice, obu) :: others).flatMap (·.1))
    {n : Nat} (inside : n ≤ bytes.length) (more : a.length < n) (missing : n < a.length + slice.length) :
    ∃ e, e.kind = .unexpectedEndOfInput ∧ parseSequence (bytes.take n) = .error e ∧
      (SequenceReader.new (bytes.take n)).take (xs.length + 1) = xs.map .ok ++ [.error e] := by
  have length : (bytes.take n).length = n := List.length_take_of_le inside
  have start : rest (BitCursor.new bytes) = bytesBits a ++ (bytesBits slice ++ bytesBits (others.flatMap (·.1))) := by
    rw [← bytesBitsAppend, ← bytesBitsAppend, parts]
    rfl
  have start' : rest (BitCursor.new (bytes.take n)) = bytesBits a ++ bytesBits ((bytes.take n).drop a.length) := by
    have front : bytes.take n = a ++ (bytes.take n).drop a.length := by
      conv_lhs => rw [← List.take_append_drop a.length (bytes.take n), List.take_take, Nat.min_eq_left more.le, parts,
        List.take_left]
      rw [parts]
    rw [← bytesBitsAppend, ← front]
    rfl
  have yields := sourceYields source (c := BitCursor.new (bytes.take n)) rfl start'
  rw [bytesBitsLength] at yields
  obtain ⟨place, aligned⟩ := advanceAligned (c := BitCursor.new bytes) (k := a.length) rfl (by rw [start]; simp)
  obtain ⟨place', aligned'⟩ := advanceAligned (c := BitCursor.new (bytes.take n)) (k := a.length) rfl (by rw [start']; simp)
  have cut : Cut (advance (8 * a.length) (BitCursor.new bytes)) (advance (8 * a.length) (BitCursor.new (bytes.take n))) :=
    ⟨List.take_prefix n bytes, place'.trans place.symm, aligned'.trans aligned.symm⟩
  have split : rest (advance (8 * a.length) (BitCursor.new bytes)) = bytesBits slice ++ bytesBits (others.flatMap (·.1)) := by
    rw [restAdvance _ _ (by rw [start]; simp), start, ← bytesBitsLength, List.drop_left]
  have data : (advance (8 * a.length) (BitCursor.new (bytes.take n))).data.length = n := length
  have place0 : (advance (8 * a.length) (BitCursor.new (bytes.take n))).bytePos = a.length := place'.trans (Nat.zero_add _)
  obtain ⟨e, s', fails, kind⟩ := nextCut back cut aligned split (by rw [data, place0]; exact more)
    (by rw [data, place0]; exact missing)
  obtain ⟨octets, few, size⟩ := sourceOctets source
  rw [bytesBitsLength] at size
  have stop : SequenceReader.take 1 ⟨advance (8 * a.length) (.new (bytes.take n)), mid, false⟩ = [.error e] := by
    rw [SequenceReader.take, fails]
    rfl
  exact ⟨e, kind, parseStops yields (by rw [length]; omega) fails, (takeYields yields 1).trans (by rw [stop])⟩

theorem cutBehind {mid last : ParamDefinitionRegistry} {a : Bytes} {xs : List SequenceObu}
    {entries : List (Bytes × SequenceObu)} (source : SequenceSource .new (bytesBits a) xs mid)
    (slices : Slices mid entries last) {n : Nat} (inside : n ≤ (entries.map (·.1)).flatten.length) :
    ∃ k ≤ entries.length, (∀ slice, (entries.map (·.1))[k]? = some slice →
        n < ((entries.map (·.1)).take k).flatten.length + slice.length) ∧
      (((entries.map (·.1)).take k).flatten.length = n ∧
          parseSequence (a ++ (entries.map (·.1)).flatten.take n) = .ok ⟨xs ++ (entries.map (·.2)).take k⟩ ∨
        ((entries.map (·.1)).take k).flatten.length < n ∧ ∃ e, e.kind = .unexpectedEndOfInput ∧
          parseSequence (a ++ (entries.map (·.1)).flatten.take n) = .error e ∧
          (SequenceReader.new (a ++ (entries.map (·.1)).flatten.take n)).take (xs.length + k + 1) =
            (xs ++ (entries.map (·.2)).take k).map .ok ++ [.error e]) := by
  obtain ⟨k, few, low, next, all⟩ := cutPoint (entries.map (·.1)) inside
  rw [List.length_map] at few
  refine ⟨k, few, next, ?_⟩
  have split := slices
  rw [← List.take_append_drop k entries] at split
  obtain ⟨middle, front, back⟩ := slicesSplit split
  have whole : (entries.map (·.1)).flatten =
      ((entries.map (·.1)).take k).flatten ++ (entries.drop k).flatMap (·.1) := by
    rw [List.flatMap_def, ← List.map_take, ← List.flatten_append, ← List.map_append, List.take_append_drop]
  have source' : SequenceSource .new (bytesBits (a ++ ((entries.map (·.1)).take k).flatten))
      (xs ++ (entries.map (·.2)).take k) middle := by
    rw [bytesBitsAppend, ← List.map_take, ← List.map_take, ← List.flatMap_def]
    exact sourceAppend source (slicesSource front)
  rcases Nat.lt_or_eq_of_le low with more | same
  · refine .inr ⟨more, ?_⟩
    cases behind : entries.drop k with
    | nil =>
      rw [whole, behind, List.flatMap_nil, List.append_nil] at inside
      omega
    | cons entry others =>
      obtain ⟨slice, obu⟩ := entry
      rw [behind] at back whole
      have here : (entries.map (·.1))[k]? = some slice := by
        rw [List.getElem?_map, ← Nat.add_zero k, ← List.getElem?_drop, behind]
        rfl
      have count : (xs ++ (entries.map (·.2)).take k).length = xs.length + k := by
        rw [List.length_append, List.length_take_of_le (by rwa [List.length_map])]
      have short := next slice here
      have cut : (a ++ (entries.map (·.1)).flatten).take (a.length + n) = a ++ (entries.map (·.1)).flatten.take n :=
        List.take_length_add_append n
      have parts : a ++ (entries.map (·.1)).flatten =
          a ++ ((entries.map (·.1)).take k).flatten ++ ((slice, obu) :: others).flatMap (·.1) := by
        rw [whole, List.append_assoc]
      have stopped := stoppedBehind source' back parts (n := a.length + n) (by rw [List.length_append]; omega)
        (by rw [List.length_append]; omega) (by rw [List.length_append]; omega)
      rwa [cut, count] at stopped
  · refine .inl ⟨same, parseSequenceOk.mpr ⟨middle, ?_⟩⟩
    rwa [← same, whole, List.take_left]

theorem truncatedReads {bytes : Bytes} {s : ParsedSequence} (parsed : parseSequence bytes = .ok s) {n : Nat}
    (inside : n ≤ bytes.length) : ∃ slices k, obuSlices bytes = .ok slices ∧
      (∀ slice, slices[k]? = some slice → n < (slices.take k).flatten.length + slice.length) ∧
      ((slices.take k).flatten.length = n ∧ parseSequence (bytes.take n) = .ok ⟨s.obus.take k⟩ ∨
        (slices.take k).flatten.length < n ∧ ∃ e, e.kind = .unexpectedEndOfInput ∧
          parseSequence (bytes.take n) = .error e ∧
          (SequenceReader.new (bytes.take n)).take (k + 1) = (s.obus.take k).map .ok ++ [.error e]) := by
  obtain ⟨last, source⟩ := parseSequenceOk.mp parsed
  obtain ⟨entries, flat, obus, slices⟩ := sourceSlices source
  rw [List.flatMap_def] at flat
  have whole : obuSlices bytes = .ok (entries.map (·.1)) := by
    rw [← flat]
    exact obuSlicesOf (List.forall_mem_map.mpr (slicesWhole slices))
  obtain ⟨k, _, next, cut⟩ := cutBehind .nil slices (a := []) (n := n) (by rwa [flat])
  rw [flat, obus, List.length_nil, Nat.zero_add] at cut
  exact ⟨_, k, whole, next, cut⟩

theorem truncatedReadsHeader : ∃ slices k, obuSlices (headerEntry.1 ++ delimiterEntry.1) = .ok slices ∧
    (∀ slice, slices[k]? = some slice → 9 < (slices.take k).flatten.length + slice.length) ∧
    ((slices.take k).flatten.length = 9 ∧ parseSequence ((headerEntry.1 ++ delimiterEntry.1).take 9) =
        .ok ⟨[headerEntry.2, delimiterEntry.2].take k⟩ ∨
      (slices.take k).flatten.length < 9 ∧ ∃ e, e.kind = .unexpectedEndOfInput ∧
        parseSequence ((headerEntry.1 ++ delimiterEntry.1).take 9) = .error e ∧
        (SequenceReader.new ((headerEntry.1 ++ delimiterEntry.1).take 9)).take (k + 1) =
          ([headerEntry.2, delimiterEntry.2].take k).map .ok ++ [.error e]) := by
  have parsed : parseSequence (headerEntry.1 ++ delimiterEntry.1) = .ok ⟨[headerEntry.2, delimiterEntry.2]⟩ := by
    decide +kernel
  exact truncatedReads parsed (by decide)

end Iamf.Wire
