import Iamf.EncoderRoundTrip
import Iamf.TruncatedStreams

/-! A sink that gives up in the middle of the output. What it holds is still read up to the OBU that is
torn, and every unit accepted before is there. -/
namespace Iamf.Wire
open Bits BitString TapeCodec

/-- A reader gets these OBUs; then the bytes end, or run out in the middle of one more. -/
def Survive (bytes : Bytes) (obus : List SequenceObu) : Prop :=
  parseSequence bytes = .ok ⟨obus⟩ ∨ ∃ e, e.kind = .unexpectedEndOfInput ∧ parseSequence bytes = .error e ∧
    (SequenceReader.new bytes).take (obus.length + 1) = obus.map .ok ++ [.error e]

theorem surviveCut {a b : Bytes} {xs ys : List SequenceObu} (first : parseSequence a = .ok ⟨xs⟩)
    (whole : parseSequence (a ++ b) = .ok ⟨xs ++ ys⟩) {n : Nat} (inside : n ≤ b.length) :
    ∃ behind, behind <+: ys ∧ (behind = ys → n = b.length) ∧ Survive (a ++ b.take n) (xs ++ behind) := by
  obtain ⟨mid, last, zs, same, source, tail⟩ := parseSplit first whole
  cases List.append_cancel_left same
  obtain ⟨entries, flat, obus, slices⟩ := sourceSlices tail
  rw [List.flatMap_def] at flat
  obtain ⟨k, few, _, cut⟩ := cutBehind source slices (n := n) (by rwa [flat])
  have whole' (all : ys.take k = ys) : n = b.length := by
    have most : entries.length ≤ k := by
      rw [List.take_eq_self_iff, ← obus, List.length_map] at all
      exact all
    have low : ((entries.map (·.1)).take k).flatten.length ≤ n := cut.elim (fun same => same.1.le) fun torn => torn.1.le
    rw [List.take_of_length_le (by rwa [List.length_map]), flat] at low
    exact Nat.le_antisymm inside low
  have count : (xs ++ ys.take k).length = xs.length + k := by
    rw [List.length_append, List.length_take_of_le (by rwa [← obus, List.length_map])]
  rw [flat, obus, ← count] at cut
  exact ⟨ys.take k, List.take_prefix k ys, whole', cut.imp And.right And.right⟩

namespace EncodingWriter

variable {W : Sink} {start : W.State} {encoder : Encoder} {inputs : List TemporalUnitInput}

/-- The writer that one unit broke: of the unit's bytes the sink holds only so many. -/
structure Torn (start : W.State) (encoder : Encoder) (inputs : List TemporalUnitInput) (input : TemporalUnitInput)
    (w : EncodingWriter W) : Prop where
  poisoned : w.sequence.state = .poisoned
  part : ∃ progress units prologue bytes unit next whole n, encoder.Sends inputs units progress prologue bytes ∧
    encoder.preflight progress input = .ok (unit, next) ∧
    (Call.temporalUnit unit).Encodes (.fromDescriptors encoder.descriptors) whole ∧ n ≤ whole.length ∧
    W.held w.sequence.sink = W.held start ++ (prologue ++ bytes ++ whole.take n)

inductive Struck (start : W.State) (encoder : Encoder) (inputs : List TemporalUnitInput) (input : TemporalUnitInput) :
    Except Error Unit × EncodingWriter W → Prop where
  | accepted {w'} (sent : Sent start encoder (inputs ++ [input]) w') : Struck start encoder inputs input (.ok (), w')
  | refused {e w'} (sent : Sent start encoder inputs w') : Struck start encoder inputs input (.error e, w')
  | torn {e w'} (torn : Torn start encoder inputs input w') : Struck start encoder inputs input (.error e, w')

theorem pushStruck {w : EncodingWriter W} (sent : Sent start encoder inputs w) (input : TemporalUnitInput) :
    Struck start encoder inputs input (outcome (pushTemporalUnit input) w) := by
  have push := outcomePushed w input
  generalize outcome (pushTemporalUnit input) w = r at push ⊢
  cases push with
  | stopped poisoned => exact .refused sent
  | refused sound checked => exact .refused sent
  | @failed unit next e sequence sound checked ran =>
    have call := SequenceWriter.pushUnitPushed unit w.sequence
    rw [ran] at call
    rw [sent.same] at checked
    obtain ⟨units, prologue, bytes, sends, held, _⟩ := sent.sends
    have definitions := sent.definitions
    have part {whole : Bytes} {n : Nat} (encodes : (Call.temporalUnit unit).Encodes w.sequence.definitions whole)
        (inside : n ≤ whole.length) (held' : W.held sequence.sink = W.held w.sequence.sink ++ whole.take n)
        (state : sequence.state = .poisoned) : Torn start encoder inputs input { w with sequence := sequence } := by
      rw [definitions] at encodes
      refine ⟨state, w.progress, units, prologue, bytes, unit, next, whole, n, sends, checked, encodes, inside, ?_⟩
      change W.held sequence.sink = _
      rw [held', held, List.append_assoc]
    cases call with
    | refused sink count state definitions' _ _ => exact .refused (sentStays sent sink count state definitions')
    | failed _ encodes inside held' _ state => exact .torn (part encodes inside held' state)
    | overflowed _ encodes inside held' _ state => exact .torn (part encodes inside held' state)
  | accepted sound checked ran =>
    rw [sent.same] at checked
    exact .accepted (sentBehind sent checked ran)

/-- Of these pushes it was the one of `input`, behind those of `before`, that broke the writer. -/
structure BrokeAt (w : EncodingWriter W) (inputs before : List TemporalUnitInput) (input : TemporalUnitInput) : Prop where
  split : before ++ [input] <+: inputs
  whole : (w.after before).sequence.state ≠ .poisoned
  broken : (w.after (before ++ [input])).sequence.state = .poisoned
  accepted : w.accepted inputs = w.accepted before
  final : w.after inputs = w.after (before ++ [input])

theorem BrokeAt.behind {w : EncodingWriter W} {first : TemporalUnitInput} {before : List TemporalUnitInput}
    {input : TemporalUnitInput} (broke : BrokeAt (outcome (pushTemporalUnit first) w).2 inputs before input) :
    BrokeAt w (first :: inputs) (first :: before) input where
  split := List.cons_prefix_cons.mpr ⟨rfl, broke.split⟩
  whole := broke.whole
  broken := broke.broken
  accepted := by
    have same := broke.accepted
    simp only [EncodingWriter.accepted]
    generalize outcome (pushTemporalUnit first) w = r at same ⊢
    rcases r with ⟨_ | _, w'⟩
    · exact same
    · exact congrArg (first :: ·) same
  final := broke.final

theorem BrokeAt.last {w : EncodingWriter W} {before before' : List TemporalUnitInput} {input input' : TemporalUnitInput}
    (broke : BrokeAt w inputs before input) (broke' : BrokeAt w inputs before' input')
    (shorter : before ++ [input] <+: before' ++ [input']) : before ++ [input] = before' ++ [input'] := by
  refine (List.prefix_concat_iff.mp shorter).resolve_right fun inside => broke'.whole ?_
  obtain ⟨more, rfl⟩ := inside
  rw [afterAppend, (poisonedRun broke.broken more).1]
  exact broke.broken

theorem BrokeAt.once {w : EncodingWriter W} {before before' : List TemporalUnitInput} {input input' : TemporalUnitInput}
    (broke : BrokeAt w inputs before input) (broke' : BrokeAt w inputs before' input') :
    before' = before ∧ input' = input := by
  have same : before' ++ [input'] = before ++ [input] := by
    rcases List.prefix_or_prefix_of_prefix broke.split broke'.split with shorter | shorter
    · exact (broke.last broke' shorter).symm
    · exact broke'.last broke shorter
  exact (List.append_inj' same rfl).imp id List.singleton_inj.mp

theorem brokeFirst {w : EncodingWriter W} {e : Error} {w' : EncodingWriter W} {input : TemporalUnitInput}
    (sound : w.sequence.state ≠ .poisoned) (pushed : outcome (pushTemporalUnit input) w = (.error e, w'))
    (poisoned : w'.sequence.state = .poisoned) (inputs : List TemporalUnitInput) :
    BrokeAt w (input :: inputs) [] input := by
  obtain ⟨stays, none⟩ := poisonedRun poisoned inputs
  have one : w.after [input] = w' := congrArg Prod.snd pushed
  refine ⟨List.cons_prefix_cons.mpr ⟨rfl, List.nil_prefix⟩, sound, ?_, ?_, ?_⟩
  · rw [List.nil_append, one]
    exact poisoned
  · simp only [EncodingWriter.accepted, pushed, none]
  · rw [List.nil_append, one, after, pushed]
    exact stays

theorem runStruck {w : EncodingWriter W} {done : List TemporalUnitInput} (sent : Sent start encoder done w)
    (inputs : List TemporalUnitInput) : Sent start encoder (done ++ w.accepted inputs) (w.after inputs) ∨
      ∃ before input, BrokeAt w inputs before input ∧
        Torn start encoder (done ++ w.accepted inputs) input (w.after inputs) := by
  induction inputs generalizing w done with
  | nil =>
    rw [accepted, after, List.append_nil]
    exact .inl sent
  | cons input inputs ih =>
    have struck := pushStruck sent input
    have sound := sent.unbroken
    have later {done : List TemporalUnitInput} (sent' : Sent start encoder done (outcome (pushTemporalUnit input) w).2) :
        Sent start encoder (done ++ (outcome (pushTemporalUnit input) w).2.accepted inputs) (w.after (input :: inputs)) ∨
          ∃ before other, BrokeAt w (input :: inputs) before other ∧ Torn start encoder
            (done ++ (outcome (pushTemporalUnit input) w).2.accepted inputs) other (w.after (input :: inputs)) := by
      refine (ih sent').imp_right ?_
      rintro ⟨before, other, broke, torn⟩
      exact ⟨input :: before, other, broke.behind, torn⟩
    rw [accepted]
    rcases pushed : outcome (pushTemporalUnit input) w with ⟨reply, w'⟩
    rw [pushed] at struck later
    cases struck with
    | accepted sent' =>
      have rest := later sent'
      rwa [List.append_assoc] at rest
    | refused sent' => exact later sent'
    | torn torn =>
      obtain ⟨stays, none⟩ := poisonedRun torn.poisoned inputs
      refine .inr ⟨[], input, brokeFirst sound pushed torn.poisoned inputs, ?_⟩
      rw [after, pushed]
      simp only [stays, none, List.append_nil]
      exact torn

end EncodingWriter

theorem Built.partSurvives {b : EncoderBuilder} {encoder : Encoder} {manifest : IdManifest}
    (built : Built b encoder manifest) {inputs : List TemporalUnitInput} {input : TemporalUnitInput}
    {units : List TemporalUnit} {unit : TemporalUnit} {progress next : TemporalProgress} {prologue bytes whole : Bytes}
    (sends : encoder.Sends inputs units progress prologue bytes)
    (checked : encoder.preflight progress input = .ok (unit, next))
    (encodes : (Call.temporalUnit unit).Encodes (.fromDescriptors encoder.descriptors) whole) {n : Nat}
    (inside : n ≤ whole.length) : ∃ behind, behind <+: (encoder.lowered input).obus ∧
      (behind = (encoder.lowered input).obus → n = whole.length) ∧
      Survive (prologue ++ bytes ++ whole.take n)
        ((ParsedSequence.fromParts encoder.descriptors (inputs.map encoder.lowered)).obus ++ behind) := by
  obtain ⟨_, _, before⟩ := built.sendsFlat sends.lowers sends.descriptors sends.encodes
  have both : Encoder.UnitBytes (.fromDescriptors encoder.descriptors) (units ++ [unit]) (bytes ++ (whole ++ [])) :=
    Encoder.unitBytesAppend.mpr ⟨bytes, _, rfl, sends.encodes, .cons encodes .nil⟩
  obtain ⟨_, _, more⟩ := built.sendsFlat (Encoder.lowersSnoc sends.lowers checked) sends.descriptors both
  have parts : (ParsedSequence.fromParts encoder.descriptors ((inputs ++ [input]).map encoder.lowered)).obus =
      (ParsedSequence.fromParts encoder.descriptors (inputs.map encoder.lowered)).obus ++ (encoder.lowered input).obus := by
    simp only [ParsedSequence.fromParts, List.map_append, List.map_cons, List.map_nil, List.flatMap_append,
      List.flatMap_cons, List.flatMap_nil, List.append_nil, List.append_assoc]
  rw [List.append_nil, ← List.append_assoc] at more
  exact surviveCut before (more.trans (congrArg (fun obus => Except.ok (ParsedSequence.mk obus)) parts)) inside

theorem Built.startSurvives {b : EncoderBuilder} {encoder : Encoder} {manifest : IdManifest}
    (built : Built b encoder manifest) {W : Sink} {start : W.State} {e : Error} {s : SequenceWriter W}
    (failed : encoder.start start = .error e s) : ∃ bytes behind,
      W.held s.sink = W.held start ++ bytes ∧ behind <+: encoder.descriptors.obus ∧ Survive bytes behind := by
  have none : parseSequence [] = .ok ⟨[]⟩ := rfl
  have call := SequenceWriter.pushDescriptorsPushed encoder.descriptors (SequenceWriter.new start : SequenceWriter W)
  have part {whole : Bytes} {n : Nat} (encodes : (Call.descriptors encoder.descriptors).Encodes .new whole)
      (inside : n ≤ whole.length) (held : W.held s.sink = W.held start ++ whole.take n) : ∃ bytes behind,
        W.held s.sink = W.held start ++ bytes ∧ behind <+: encoder.descriptors.obus ∧ Survive bytes behind := by
    obtain ⟨_, _, parsed⟩ := built.sendsFlat .nil encodes .nil
    have parts : (ParsedSequence.fromParts encoder.descriptors ([].map encoder.lowered)).obus = encoder.descriptors.obus :=
      List.append_nil _
    rw [List.append_nil] at parsed
    obtain ⟨behind, front, _, survive⟩ := surviveCut none
      (parsed.trans (congrArg (fun obus => Except.ok (ParsedSequence.mk obus)) parts)) inside
    exact ⟨_, behind, held, front, survive⟩
  unfold Encoder.start at failed
  cases ran : SequenceWriter.pushDescriptors encoder.descriptors (SequenceWriter.new start) with
  | ok u sequence =>
    rw [ran] at failed
    cases failed
  | error e' sequence =>
    rw [ran] at failed call
    cases failed
    cases call with
    | refused sink =>
      exact ⟨[], [], (congrArg W.held sink).trans (List.append_nil _).symm, List.nil_prefix, .inl none⟩
    | failed _ encodes inside held => exact part encodes inside held
    | overflowed _ encodes inside held => exact part encodes inside held

theorem acceptedSurvive {b : EncoderBuilder} {encoder : Encoder} {manifest : IdManifest}
    (ok : b.build = .ok (encoder, manifest)) (W : Sink) (start : W.State) :
    (∀ e s, encoder.start start = .error e s → ∃ bytes behind, W.held s.sink = W.held start ++ bytes ∧
      behind <+: encoder.descriptors.obus ∧ Survive bytes behind) ∧
    ∀ w s inputs, encoder.start start = .ok w s → ∃ bytes behind,
      W.held (w.after inputs).sequence.sink = W.held start ++ bytes ∧
      Survive bytes
        ((ParsedSequence.fromParts encoder.descriptors ((w.accepted inputs).map encoder.lowered)).obus ++ behind) ∧
      ((w.after inputs).sequence.state ≠ .poisoned → behind = [] ∧
        parseSequence bytes = .ok (.fromParts encoder.descriptors ((w.accepted inputs).map encoder.lowered))) ∧
      ((w.after inputs).sequence.state = .poisoned → ∃ before input, w.BrokeAt inputs before input ∧
        behind <+: (encoder.lowered input).obus) := by
  have built := buildOk.mp ok
  refine ⟨fun e s => built.startSurvives, fun w s inputs started => ?_⟩
  rcases EncodingWriter.runStruck (EncodingWriter.startSent started) inputs with sent | ⟨before, input, broke, torn⟩
  · obtain ⟨_, bytes, held, _, parsed⟩ := built.behindSent sent
    refine ⟨bytes, [], held, .inl ?_, fun _ => ⟨rfl, parsed⟩, fun poisoned => absurd poisoned sent.unbroken⟩
    rw [List.append_nil]
    exact parsed
  · obtain ⟨_, _, _, _, _, _, _, n, sends, checked, encodes, inside, held⟩ := torn.part
    obtain ⟨behind, front, _, survive⟩ := built.partSurvives sends checked encodes inside
    exact ⟨_, behind, held, survive, fun whole => absurd torn.poisoned whole, fun _ => ⟨before, input, broke, front⟩⟩

def declarePair : EncoderBuilder.Declare MixPresentationHandle := do
  let codec ← EncoderBuilder.addCodecConfig (.lpcm 0 2 ⟨.littleEndian, 16, 48000⟩)
  let element ← EncoderBuilder.addAudioElement codec
    ⟨0, 0, .sceneBased (.mono ⟨4, 2, [0, 1, 255, 255]⟩), 0, [0, 1], [], []⟩
  EncoderBuilder.addMixPresentation [element] (stereoPresentation 0)

def pairBuilder : EncoderBuilder := (declarePair (.new 7)).2

def pairEncoder : Encoder :=
  ⟨⟨.new 0 0, [.lpcm 0 2 ⟨.littleEndian, 16, 48000⟩],
    [⟨0, 0, .sceneBased (.mono ⟨4, 2, [0, 1, 255, 255]⟩), 0, [0, 1], [], []⟩], [stereoPresentation 0]⟩, 7⟩

theorem pairBuilds : ∃ manifest, pairBuilder.build = .ok (pairEncoder, manifest) := buildsTo (by decide +kernel)

def pairUnit (sample : UInt8) : TemporalUnitInput :=
  ⟨[(⟨7, 0⟩, .lpcm [sample, 0, 0, 0]), (⟨7, 1⟩, .lpcm [sample, 1, 1, 1])],
    [⟨⟨7, 0⟩, ⟨0, some ⟨2, 2⟩, [⟨none, .mixGain (.step 5)⟩]⟩⟩], none⟩

def pairUnits : List TemporalUnitInput := [pairUnit 1, ⟨[], [], none⟩, pairUnit 2, pairUnit 3]

theorem pairBreaks : ∃ w s, pairEncoder.start (W := Sink.limited 106) ([], false) = .ok w s ∧
    w.BrokeAt pairUnits [pairUnit 1, ⟨[], [], none⟩] (pairUnit 2) ∧ w.accepted pairUnits = [pairUnit 1] := by
  obtain ⟨w, s, started, ran⟩ := @Encoder.startedOf (Sink.limited 106) pairEncoder ([], false) (fun w =>
      (w.after [pairUnit 1, ⟨[], [], none⟩]).sequence.state != .poisoned &&
      (w.after [pairUnit 1, ⟨[], [], none⟩, pairUnit 2]).sequence.state == .poisoned &&
      w.accepted pairUnits == [pairUnit 1] && w.accepted [pairUnit 1, ⟨[], [], none⟩] == [pairUnit 1])
    (by decide +kernel)
  simp only [Bool.and_eq_true, beq_iff_eq, bne_iff_ne] at ran
  obtain ⟨⟨⟨whole, broken⟩, accepted⟩, before⟩ := ran
  refine ⟨w, s, started, ⟨⟨[pairUnit 3], rfl⟩, whole, broken, accepted.trans before.symm, ?_⟩, accepted⟩
  exact (w.afterAppend [pairUnit 1, ⟨[], [], none⟩, pairUnit 2] [pairUnit 3]).trans
    (EncodingWriter.poisonedRun broken [pairUnit 3]).1

theorem acceptedSurvivePair : ∃ w s bytes behind, pairEncoder.start (W := Sink.limited 106) ([], false) = .ok w s ∧
    (Sink.limited 106).held (w.after pairUnits).sequence.sink = bytes ∧
    Survive bytes ((ParsedSequence.fromParts pairEncoder.descriptors [pairEncoder.lowered (pairUnit 1)]).obus ++ behind) ∧
    w.BrokeAt pairUnits [pairUnit 1, ⟨[], [], none⟩] (pairUnit 2) ∧
    behind <+: (pairEncoder.lowered (pairUnit 2)).obus := by
  obtain ⟨manifest, built⟩ := pairBuilds
  obtain ⟨w, s, started, broke, accepted⟩ := pairBreaks
  obtain ⟨bytes, behind, held, survive, _, torn⟩ :=
    (acceptedSurvive built (Sink.limited 106) ([], false)).2 w s pairUnits started
  obtain ⟨before, input, broke', front⟩ := torn (broke.final ▸ broke.broken)
  obtain ⟨rfl, rfl⟩ := broke.once broke'
  rw [accepted] at survive
  exact ⟨w, s, bytes, behind, started, held, survive, broke, front⟩

end Iamf.Wire
