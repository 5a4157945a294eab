import Iamf.SequenceSource

/-! What the reader yields depends on the bytes it has passed and on nothing behind them. -/
namespace Iamf.Wire
open Bits BitString TapeCodec ReadTape

theorem collectMap {T : Type} (items : List T) : collectItems (items.map .ok) = .ok items := by
  induction items with
  | nil => rfl
  | cons item items ih =>
    rw [List.map_cons, collectItems, exceptBindOf _ (show Except.ok item = .ok item from rfl), ih]
    rfl

section

variable [UlebForm]

theorem takeYields {s s' : SequenceReader} {obus : List SequenceObu} (yields : Yields s obus s') (calls : Nat) :
    s.take (obus.length + calls) = obus.map .ok ++ s'.take calls := by
  induction yields with
  | refl => simp
  | @step s s' s'' obu obus next _ ih =>
    rw [List.length_cons, Nat.add_right_comm, SequenceReader.take, next]
    simp only [ih, List.map_cons, List.cons_append]

theorem afterYields {s s' : SequenceReader} {obus : List SequenceObu} (yields : Yields s obus s') (calls : Nat) :
    s.after (obus.length + calls) = s'.after calls := by
  induction yields with
  | refl => simp
  | @step s s' s'' obu obus next _ ih =>
    rw [List.length_cons, Nat.add_right_comm, SequenceReader.after, next, ih]

theorem nextNone {s : SequenceReader} (ready : s.Ready) : s.next.1 = none ↔ rest s.reader = [] := by
  have total := remainingOfRest ready.aligned
  rw [← List.length_eq_zero_iff, ← total]
  unfold SequenceReader.next
  rw [ready.running, Bool.false_or]
  split
  · rename_i empty
    simp only [beq_iff_eq] at empty
    simp [empty]
  · rename_i more
    simp only [beq_iff_eq] at more
    split <;> simp [more]

theorem takeNone {s : SequenceReader} (none : s.next.1 = none) (calls : Nat) : s.take calls = [] := by
  cases calls with
  | zero => rfl
  | succ calls =>
    unfold SequenceReader.take
    split
    · rfl
    · rename_i item s' next
      rw [next] at none
      cases none

theorem yieldsOfTake {s : SequenceReader} {calls : Nat} {obus : List SequenceObu}
    (ok : collectItems (s.take calls) = .ok obus) :
    ∃ s', Yields s obus s' ∧ (obus.length = calls ∨ s'.next.1 = none) := by
  induction calls generalizing s obus with
  | zero => cases ok; exact ⟨s, .refl, .inl rfl⟩
  | succ calls ih =>
    unfold SequenceReader.take at ok
    split at ok
    · rename_i s' next
      cases ok
      exact ⟨s, .refl, .inr (by rw [next])⟩
    · rename_i item s' next
      obtain ⟨obu, first, rest⟩ := exceptBindOk ok
      obtain ⟨others, tail, last⟩ := exceptBindOk rest
      cases last
      subst first
      obtain ⟨s'', yields, ended⟩ := ih tail
      exact ⟨s'', .step next yields, ended.imp (congrArg Nat.succ) id⟩

theorem parseSequenceOk {input : Bytes} {obus : List SequenceObu} :
    parseSequence input = .ok ⟨obus⟩ ↔ ∃ last, SequenceSource .new (bytesBits input) obus last := by
  have ready := newReady input
  have start : rest (SequenceReader.new input).reader = bytesBits input := rfl
  unfold parseSequence
  constructor
  · intro ok
    obtain ⟨items, collected, last⟩ := exceptBindOk ok
    cases last
    obtain ⟨s', yields, ended⟩ := yieldsOfTake collected
    obtain ⟨ready', bits, split, moved, source⟩ := yieldsSource yields ready
    rw [start] at split
    obtain ⟨k, enough, size⟩ := sourceOctets source
    have total := congrArg List.length split
    rw [bytesBitsLength, List.length_append] at total
    have done := (nextNone ready').mp (ended.resolve_left (by omega))
    rw [done, List.append_nil] at split
    exact ⟨_, split ▸ source⟩
  · rintro ⟨last, source⟩
    have yields := sourceYields source (c := BitCursor.new input) rfl (restNew input)
    obtain ⟨ready', _⟩ := yieldsSource yields ready
    obtain ⟨k, enough, size⟩ := sourceOctets source
    rw [bytesBitsLength] at size
    have done : rest (advance (bytesBits input).length (BitCursor.new input)) = [] := by
      rw [restAdvance _ _ (by exact Nat.le_refl _)]
      exact List.drop_length
    obtain ⟨calls, more⟩ : ∃ calls, input.length + 1 = obus.length + calls := ⟨_, (Nat.add_sub_cancel' (by omega)).symm⟩
    have taken := takeYields yields calls
    rw [takeNone ((nextNone ready').mpr done), List.append_nil, ← more] at taken
    change collectItems ((SequenceReader.new input).take _) >>= _ = _
    rw [show (SequenceReader.new input).take (input.length + 1) = _ from taken, exceptBindOf _ (collectMap obus)]

theorem nextFails {s s' : SequenceReader} {e : Error} (next : s.next = (some (.error e), s')) :
    s.next = (some (.error e), { s with finished := true }) := by
  unfold SequenceReader.next at next ⊢
  split_ifs at next ⊢ with ended
  · cases next
  split at next
  · cases next
  · cases next
    rfl

theorem failsOfTake {s : SequenceReader} {calls : Nat} {obus : List SequenceObu} {e : Error}
    (taken : s.take calls = obus.map .ok ++ [.error e]) :
    ∃ s', Yields s obus s' ∧ s'.next = (some (.error e), { s' with finished := true }) := by
  induction calls generalizing s obus with
  | zero => simp [SequenceReader.take] at taken
  | succ calls ih =>
    unfold SequenceReader.take at taken
    split at taken
    · simp at taken
    rename_i item s' next
    cases obus with
    | nil =>
      obtain ⟨rfl, _⟩ := List.cons_eq_cons.mp taken
      exact ⟨s, .refl, nextFails next⟩
    | cons obu obus =>
      obtain ⟨rfl, tail⟩ := List.cons_eq_cons.mp taken
      obtain ⟨s'', yields, failed⟩ := ih tail
      exact ⟨s'', .step next yields, failed⟩

theorem afterFinished {s : SequenceReader} (finished : s.finished = true) (calls : Nat) : s.after calls = s := by
  induction calls with
  | zero => rfl
  | succ calls ih =>
    have still : s.next = (none, s) := by
      unfold SequenceReader.next
      rw [finished, Bool.true_or, if_pos rfl]
    rw [SequenceReader.after, still, ih]

end

theorem positionOfYields {input : Bytes} {s : SequenceReader} {obus : List SequenceObu}
    (yields : Yields (.new input) obus s) : ∃ last, SequenceSource .new (bytesBits (input.take s.bytePosition)) obus last := by
  obtain ⟨ready, bits, split, moved, source⟩ := yieldsSource yields (newReady input)
  obtain ⟨k, _, size⟩ := sourceOctets source
  have whole : bytesBits input = bits ++ rest s.reader := split
  have position : s.bytePosition = k := by
    have behind := (advanceAligned (c := (SequenceReader.new input).reader) (k := k) rfl (by
      rw [split, List.length_append]; omega)).1
    rw [← size, ← moved] at behind
    change s.reader.bytePos = k
    rw [behind]
    exact Nat.zero_add k
  have front : bytesBits (input.take k) = bits := by rw [← bytesBitsTake, whole, ← size, List.take_left]
  exact ⟨_, position ▸ front ▸ source⟩

theorem readerPrefix :
    (∀ (input : Bytes) (calls : Nat) (xs : List SequenceObu) (e : Error),
      (SequenceReader.new input).take calls = xs.map .ok ++ [.error e] →
      ((SequenceReader.new input).after (xs.length + 1)).bytePosition =
        ((SequenceReader.new input).after xs.length).bytePosition ∧
      parseSequence (input.take ((SequenceReader.new input).after (xs.length + 1)).bytePosition) = .ok ⟨xs⟩ ∧
      ∀ later, ((SequenceReader.new input).after (xs.length + 1 + later)).next.1 = none) ∧
    (∀ (a b : Bytes) (s : ParsedSequence), parseSequence a = .ok s →
      (∀ calls, (SequenceReader.new (a ++ b)).take (s.obus.length + calls) =
        s.obus.map .ok ++ ((SequenceReader.new (a ++ b)).after s.obus.length).take calls) ∧
      ((SequenceReader.new (a ++ b)).after s.obus.length).bytePosition = a.length) := by
  constructor
  · intro input calls xs e taken
    obtain ⟨s, yields, failed⟩ := failsOfTake taken
    have here : (SequenceReader.new input).after xs.length = s := afterYields yields 0
    have behind (later : Nat) : (SequenceReader.new input).after (xs.length + 1 + later) =
        { s with finished := true } := by
      rw [Nat.add_assoc, Nat.add_comm 1, afterYields yields, SequenceReader.after, failed]
      exact afterFinished rfl later
    rw [here, behind 0]
    have parsed : parseSequence (input.take s.bytePosition) = .ok ⟨xs⟩ := parseSequenceOk.mpr (positionOfYields yields)
    refine ⟨rfl, parsed, fun later => ?_⟩
    rw [behind later]
    unfold SequenceReader.next
    rw [Bool.true_or, if_pos rfl]
  · intro a b s ok
    obtain ⟨last, source⟩ := parseSequenceOk.mp ok
    have yields := sourceYields source (c := BitCursor.new (a ++ b)) rfl
      (show rest (BitCursor.new (a ++ b)) = bytesBits a ++ bytesBits b by rw [← bytesBitsAppend]; rfl)
    have here : (SequenceReader.new (a ++ b)).after s.obus.length = _ := afterYields yields 0
    rw [here]
    refine ⟨takeYields yields, ?_⟩
    have behind := (advanceAligned (c := BitCursor.new (a ++ b)) (k := a.length) rfl (by
      change _ ≤ (bytesBits (a ++ b)).length
      rw [bytesBitsLength, List.length_append]; omega)).1
    change (advance (bytesBits a).length (BitCursor.new (a ++ b))).bytePos = a.length
    rw [bytesBitsLength, behind]
    exact Nat.zero_add _

theorem readerPrefixDelimiter :
    (SequenceReader.new [0x20, 0x00, 0x20]).take 2 =
      [.temporalDelimiter ⟨.new .temporalDelimiter, ⟨⟩, []⟩].map .ok ++
        [.error ⟨.unexpectedEndOfInput, .inputOffset 3⟩] ∧
    parseSequence ([0x20, 0x00, 0x20].take ((SequenceReader.new [0x20, 0x00, 0x20]).after 2).bytePosition) =
      .ok ⟨[.temporalDelimiter ⟨.new .temporalDelimiter, ⟨⟩, []⟩]⟩ ∧
    ((SequenceReader.new ([0x20, 0x00] ++ [0x20])).after 1).bytePosition = 2 := by
  have taken : (SequenceReader.new [0x20, 0x00, 0x20]).take 2 =
      [.temporalDelimiter ⟨.new .temporalDelimiter, ⟨⟩, []⟩].map .ok ++
        [.error ⟨.unexpectedEndOfInput, .inputOffset 3⟩] := by decide +kernel
  have parsed : parseSequence [0x20, 0x00] = .ok ⟨[.temporalDelimiter ⟨.new .temporalDelimiter, ⟨⟩, []⟩]⟩ := by
    decide +kernel
  exact ⟨taken, (readerPrefix.1 _ _ _ _ taken).2.1, (readerPrefix.2 [0x20, 0x00] [0x20] _ parsed).2⟩

end Iamf.Wire
