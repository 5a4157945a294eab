import Iamf.SequenceWriter

/-! What one call of the streaming writer can do: refuse and change nothing that counts, send its
whole encoding, or send a part of it and stay poisoned. -/
namespace Iamf.Wire
open Bits BitString TapeCodec WriteTape

namespace SequenceWriter

variable {W : Sink}

inductive Flushed (w : SequenceWriter W) (bytes : Bytes) : EStateM.Result Error (SequenceWriter W) Unit → Prop where
  | done {w'} (held : W.held w'.sink = W.held w.sink ++ bytes)
      (count : w'.bytesWritten = w.bytesWritten + bytes.length) (state : w'.state = w.state)
      (definitions : w'.definitions = w.definitions) (unbroken : W.broken w'.sink = W.broken w.sink) :
      Flushed w bytes (.ok () w')
  | failed {e w' n} (inside : n ≤ bytes.length) (held : W.held w'.sink = W.held w.sink ++ bytes.take n)
      (count : w'.bytesWritten = w.bytesWritten + n) (state : w'.state = .poisoned)
      (broken : W.broken w'.sink = true) (cause : ¬ W.AcceptsAll) : Flushed w bytes (.error e w')
  | overflowed {e w' n} (inside : n ≤ bytes.length) (held : W.held w'.sink = W.held w.sink ++ bytes.take n)
      (exceeded : u64Max < w.bytesWritten + n) (state : w'.state = .poisoned) : Flushed w bytes (.error e w')

theorem takeAppend {a b : Bytes} {n : Nat} : (a ++ b).take (a.length + n) = a ++ b.take n := by
  rw [List.take_append, List.take_of_length_le (by omega), Nat.add_sub_cancel_left]

theorem flushedThen {w w' : SequenceWriter W} {a b : Bytes} {r : EStateM.Result Error (SequenceWriter W) Unit}
    (first : Flushed w a (.ok () w')) (second : Flushed w' b r) : Flushed w (a ++ b) r := by
  cases first with
  | done held count state definitions unbroken =>
  cases second with
  | done held' count' state' definitions' unbroken' =>
    refine .done ?_ ?_ (state'.trans state) (definitions'.trans definitions) (unbroken'.trans unbroken)
    · rw [held', held, List.append_assoc]
    · rw [count', count, List.length_append, Nat.add_assoc]
  | @failed e w'' n inside held' count' state' broken cause =>
    have whole : a.length + n ≤ (a ++ b).length := by rw [List.length_append]; omega
    refine .failed whole ?_ ?_ state' broken cause
    · rw [held', held, takeAppend, List.append_assoc]
    · rw [count', count, Nat.add_assoc]
  | @overflowed e w'' n inside held' exceeded state' =>
    have whole : a.length + n ≤ (a ++ b).length := by rw [List.length_append]; omega
    refine .overflowed whole ?_ ?_ state'
    · rw [held', held, takeAppend, List.append_assoc]
    · rw [count] at exceeded
      omega

theorem flushedStop {w w' : SequenceWriter W} {a b : Bytes} {e : Error} (first : Flushed w a (.error e w')) :
    Flushed w (a ++ b) (.error e w') := by
  have front {n : Nat} (inside : n ≤ a.length) : (a ++ b).take n = a.take n := by
    rw [List.take_append_of_le_length inside]
  have longer {n : Nat} (inside : n ≤ a.length) : n ≤ (a ++ b).length := by
    rw [List.length_append]
    omega
  cases first with
  | failed inside held count state broken cause =>
    exact .failed (longer inside) (by rw [held, front inside]) count state broken cause
  | overflowed inside held exceeded state =>
    exact .overflowed (longer inside) (by rw [held, front inside]) exceeded state

theorem flushedBind {w : SequenceWriter W} {a b : Bytes} {f g : Push W} (first : Flushed w a (f w))
    (second : ∀ w', f w = .ok () w' → Flushed w' b (g w')) : Flushed w (a ++ b) ((f >>= fun _ => g) w) := by
  cases ran : f w with
  | ok u w' =>
    rw [bindOf _ ran]
    rw [ran] at first
    exact flushedThen first (second w' ran)
  | error e w' =>
    rw [bindError _ ran]
    rw [ran] at first
    exact flushedStop first

theorem flushFromFlushed (bytes : Bytes) (w : SequenceWriter W) : Flushed w bytes (flushFrom bytes w) := by
  induction size : bytes.length using Nat.strong_induction_on generalizing bytes w with
  | _ size' ih =>
    unfold flushFrom
    split
    · rename_i empty
      subst empty
      exact .done (by simp) (by simp) rfl rfl rfl
    · rename_i more
      have positive := List.length_pos_iff.mpr more
      split
      · rename_i n sink offered
        obtain ⟨inside, held, broken⟩ := Sink.offerAccepted (Nat.le_refl _) offered
        split
        · rename_i exceeded
          exact .overflowed inside held exceeded rfl
        · have rest := ih (bytes.drop (n + 1)).length (by rw [List.length_drop]; omega) (bytes.drop (n + 1))
            { w with sink := sink, bytesWritten := w.bytesWritten + (n + 1) } rfl
          have first : Flushed w (bytes.take (n + 1))
              (.ok () { w with sink := sink, bytesWritten := w.bytesWritten + (n + 1) }) :=
            .done held (by rw [List.length_take, Nat.min_eq_left inside]) rfl rfl (by rw [broken]; simp)
          have both := flushedThen first rest
          rwa [List.take_append_drop] at both
      · rename_i reply sink other offered
        have cause : ¬ W.AcceptsAll := by
          intro all
          obtain ⟨n, sink', taken⟩ := Sink.offerTaken all more (Nat.le_refl (W.patience w.sink bytes))
          exact other n (Prod.mk.inj (offered.symm.trans taken)).1
        have given : W.held sink = W.held w.sink ∧ W.broken sink = true := by
          rcases reply with _ | _ | n
          · exact Sink.offerFailed (Nat.le_refl _) offered
          · obtain ⟨_, held, broken⟩ := Sink.offerAccepted (Nat.le_refl _) offered
            rw [List.take_zero, List.append_nil] at held
            refine ⟨held, ?_⟩
            rw [broken, List.isEmpty_eq_false_iff.mpr more]
            simp
          · exact (other n rfl).elim
        refine .failed (Nat.zero_le _) ?_ rfl rfl given.2 cause
        rw [given.1, List.take_zero, List.append_nil]

theorem inScratchOk {g : Writer Unit} {w : SequenceWriter W} {scratch : BitWriter}
    (ran : g w.scratch = .ok () scratch) : inScratch g w = .ok () { w with scratch := scratch } := by
  simp only [inScratch, ran]

theorem inScratchError {g : Writer Unit} {w : SequenceWriter W} {e : Error} {scratch : BitWriter}
    (ran : g w.scratch = .error e scratch) : inScratch g w = .error e { w with scratch := scratch } := by
  simp only [inScratch, ran]

theorem clearScratchOk (w : SequenceWriter W) : clearScratch w = .ok () { w with scratch := .new } := rfl

theorem serializeOk {g : Writer Unit} (octets : Octets g) {bytes : Bytes} (ok : finishWriter g = .ok bytes)
    (w : SequenceWriter W) : serializeObu g w = .ok () { w with scratch := append (bytesBits bytes) .new } := by
  have ran := octets.1 bytes ok .new rfl
  unfold serializeObu
  rw [bindOf _ (clearScratchOk w), inScratchOk ran]

theorem serializeFails {g : Writer Unit} (octets : Octets g) {e : Error} (failed : finishWriter g = .error e)
    (w : SequenceWriter W) : ∃ e' scratch, serializeObu g w = .error e' { w with scratch := scratch } := by
  obtain ⟨e', scratch, ran, _⟩ := octets.2 e failed .new rfl
  refine ⟨e', scratch, ?_⟩
  unfold serializeObu
  rw [bindOf _ (clearScratchOk w), inScratchError ran]

theorem flushedScratch {w : SequenceWriter W} {scratch : BitWriter} {bytes : Bytes}
    {r : EStateM.Result Error (SequenceWriter W) Unit}
    (flushed : Flushed { w with scratch := scratch } bytes r) : Flushed w bytes r := by
  cases flushed with
  | done held count state definitions unbroken => exact .done held count state definitions unbroken
  | failed inside held count state broken cause => exact .failed inside held count state broken cause
  | overflowed inside held exceeded state => exact .overflowed inside held exceeded state

theorem flushScratchOf {w : SequenceWriter W} {bytes : Bytes} (scratch : w.scratch = append (bytesBits bytes) .new) :
    flushScratch w = flushFrom bytes w := by
  have octets : w.scratch.asBytes = .ok bytes := by
    rw [scratch]
    exact BitWriter.finishAppend rfl
  simp only [flushScratch, octets]

theorem emitFlushed {g : Writer Unit} (octets : Octets g) {bytes : Bytes} (ok : finishWriter g = .ok bytes)
    (w : SequenceWriter W) : Flushed w bytes (emitPreflightedObu g w) := by
  have sent : Flushed w bytes (emitObu g w) := by
    unfold emitObu
    rw [bindOf _ (serializeOk octets ok w), flushScratchOf rfl]
    exact flushedScratch (flushFromFlushed bytes _)
  unfold emitPreflightedObu
  cases ran : emitObu g w with
  | ok u w' =>
    rw [ran] at sent
    exact sent
  | error e w' =>
    rw [ran] at sent
    cases sent with
    | failed inside held count state broken cause => exact .failed inside held count rfl broken cause
    | overflowed inside held exceeded state => exact .overflowed inside held exceeded rfl

def InUnit : SequenceObu → Prop
  | .temporalDelimiter _ | .parameterBlock _ | .audioFrame _ => True
  | _ => False

theorem unitInUnit (unit : TemporalUnit) : ∀ obu ∈ unit.obus, InUnit obu := by
  intro obu among
  simp only [TemporalUnit.obus, List.mem_append, List.mem_map] at among
  rcases among with ⟨_, _, rfl⟩ | ⟨_, _, rfl⟩ | ⟨_, _, rfl⟩ <;> trivial

def onObu (act : Writer Unit → Push W) : SequenceObu → Push W
  | .temporalDelimiter obu => act (writeObuWithHeader obu fun _ => writeTemporalDelimiter)
  | .parameterBlock obu => do
    let governing ← definitionFor obu.payload.parameterId
    act (writeObuWithHeader obu fun _ => writeParameterBlock governing.definition governing.context)
  | .audioFrame obu => act (writeObuWithHeader obu writeAudioFrame)
  | _ => pure ()

theorem onObuBlock (act : Writer Unit → Push W) (obu : Obu ParameterBlock) : onObu act (.parameterBlock obu) =
    (definitionFor obu.payload.parameterId >>= fun governing =>
      act (writeObuWithHeader obu fun _ => writeParameterBlock governing.definition governing.context)) := rfl

theorem writeEachAppend {T : Type} (g : T → Push W) (xs ys : List T) :
    writeEach g (xs ++ ys) = (writeEach g xs >>= fun _ => writeEach g ys) := by
  induction xs with
  | nil => rfl
  | cons x xs ih => simp only [List.cons_append, writeEach, ih, bind_assoc]

theorem writeEachMap {T U : Type} (g : U → Push W) (f : T → U) (xs : List T) :
    writeEach g (xs.map f) = writeEach (fun x => g (f x)) xs := by
  induction xs with
  | nil => rfl
  | cons x xs ih => simp only [List.map_cons, writeEach, ih]

theorem eachObuIs (act : Writer Unit → Push W) (unit : TemporalUnit) :
    eachObu act unit = writeEach (onObu act) unit.obus := by
  simp only [eachObu, TemporalUnit.obus, writeEachAppend, writeEachMap]
  rfl

theorem onObuOk {act : Writer Unit → Push W} {obu : SequenceObu} (inUnit : InUnit obu) {w : SequenceWriter W}
    {bytes : Bytes} (ok : finishWriter (writeSequenceObu w.definitions obu) = .ok bytes) :
    onObu act obu w = act (writeSequenceObu w.definitions obu) w := by
  cases obu with
  | temporalDelimiter obu => rfl
  | audioFrame obu => rfl
  | parameterBlock obu =>
    unfold writeSequenceObu at ok ⊢
    simp only at ok ⊢
    cases found : w.definitions.get obu.payload.parameterId with
    | none => rw [found] at ok; cases ok
    | some governing =>
      have known : definitionFor obu.payload.parameterId w = .ok governing w := by simp only [definitionFor, found]
      rw [onObuBlock, bindOf _ known]
      rfl
  | _ => exact inUnit.elim

theorem onObuFails {obu : SequenceObu} (inUnit : InUnit obu) {w : SequenceWriter W} {e : Error}
    (failed : finishWriter (writeSequenceObu w.definitions obu) = .error e) :
    ∃ e' scratch, onObu serializeObu obu w = .error e' { w with scratch := scratch } := by
  have octets := octetsWriteSequenceObu w.definitions obu
  cases obu with
  | temporalDelimiter obu => exact serializeFails octets failed w
  | audioFrame obu => exact serializeFails octets failed w
  | parameterBlock obu =>
    unfold writeSequenceObu at failed octets
    simp only at failed octets
    rw [onObuBlock]
    cases found : w.definitions.get obu.payload.parameterId with
    | none =>
      have unknown : definitionFor obu.payload.parameterId w = .error noGoverningParamDefinition w := by
        simp only [definitionFor, found]
      exact ⟨_, _, bindError _ unknown⟩
    | some governing =>
      have known : definitionFor obu.payload.parameterId w = .ok governing w := by simp only [definitionFor, found]
      simp only [found] at failed octets
      rw [bindOf _ known]
      exact serializeFails octets failed w
  | _ => exact inUnit.elim

theorem observeInUnit {obu : SequenceObu} (inUnit : InUnit obu) (registry : ParamDefinitionRegistry) :
    registry.observeObu obu = registry := by
  cases obu <;> first | rfl | exact inUnit.elim

theorem preflightOk {obus : List SequenceObu} (inUnit : ∀ obu ∈ obus, InUnit obu) {w : SequenceWriter W} {bytes : Bytes}
    (ok : finishWriter (writeSequenceObus w.definitions obus) = .ok bytes) :
    ∃ scratch, writeEach (onObu serializeObu) obus w = .ok () { w with scratch := scratch } := by
  induction obus generalizing w bytes with
  | nil => exact ⟨_, rfl⟩
  | cons obu obus ih =>
    obtain ⟨a, b, head, tail, _⟩ := writeSequenceObusCons.mp ok
    have first := inUnit obu (by simp)
    rw [observeInUnit first] at tail
    obtain ⟨scratch, others⟩ := ih (fun other among => inUnit other (List.mem_cons_of_mem _ among))
      (w := { w with scratch := append (bytesBits a) .new }) tail
    refine ⟨scratch, ?_⟩
    unfold writeEach
    rw [bindOf _ ((onObuOk first head).trans (serializeOk (octetsWriteSequenceObu _ _) head w)), others]

theorem preflightFails {obus : List SequenceObu} (inUnit : ∀ obu ∈ obus, InUnit obu) {w : SequenceWriter W}
    {e : Error} (failed : finishWriter (writeSequenceObus w.definitions obus) = .error e) :
    ∃ e' scratch, writeEach (onObu serializeObu) obus w = .error e' { w with scratch := scratch } := by
  induction obus generalizing w e with
  | nil => cases failed
  | cons obu obus ih =>
    have first := inUnit obu (by simp)
    unfold writeEach
    cases head : finishWriter (writeSequenceObu w.definitions obu) with
    | error e1 =>
      obtain ⟨e', scratch, early⟩ := onObuFails first head
      exact ⟨e', scratch, bindError _ early⟩
    | ok a =>
      have others : ∃ e1, finishWriter (writeSequenceObus w.definitions obus) = .error e1 := by
        cases tail : finishWriter (writeSequenceObus w.definitions obus) with
        | error e1 => exact ⟨e1, rfl⟩
        | ok b =>
          have whole := writeSequenceObusCons.mpr ⟨a, b, head, by rw [observeInUnit first]; exact tail, rfl⟩
          cases whole.symm.trans failed
      obtain ⟨e1, tail⟩ := others
      obtain ⟨e', scratch, late⟩ := ih (fun other among => inUnit other (List.mem_cons_of_mem _ among))
        (w := { w with scratch := append (bytesBits a) .new }) tail
      refine ⟨e', scratch, ?_⟩
      rw [bindOf _ ((onObuOk first head).trans (serializeOk (octetsWriteSequenceObu _ _) head w)), late]

theorem emitObusFlushed {obus : List SequenceObu} (inUnit : ∀ obu ∈ obus, InUnit obu) {w : SequenceWriter W}
    {bytes : Bytes} (ok : finishWriter (writeSequenceObus w.definitions obus) = .ok bytes) :
    Flushed w bytes (writeEach (onObu emitPreflightedObu) obus w) := by
  induction obus generalizing w bytes with
  | nil =>
    cases ok
    exact .done (List.append_nil _).symm rfl rfl rfl rfl
  | cons obu obus ih =>
    obtain ⟨a, b, head, tail, rfl⟩ := writeSequenceObusCons.mp ok
    have first := inUnit obu (by simp)
    rw [observeInUnit first] at tail
    have sent := emitFlushed (octetsWriteSequenceObu w.definitions obu) head w
    have same : onObu emitPreflightedObu obu w = _ := onObuOk first head
    rw [← same] at sent
    refine flushedBind sent fun w' ran => ?_
    rw [ran] at sent
    cases sent with
    | done held count state definitions unbroken =>
      exact ih (fun other among => inUnit other (List.mem_cons_of_mem _ among)) (by rw [definitions]; exact tail)

end SequenceWriter

inductive Call where
  | descriptors (set : DescriptorSet)
  | temporalUnit (unit : TemporalUnit)

namespace Call

def push {W : Sink} : Call → SequenceWriter.Push W
  | .descriptors set => SequenceWriter.pushDescriptors set
  | .temporalUnit unit => SequenceWriter.pushTemporalUnit unit

def turn : Call → State
  | .descriptors _ => .fresh
  | .temporalUnit _ => .descriptorsWritten

def Encodes (definitions : ParamDefinitionRegistry) (bytes : Bytes) : Call → Prop
  | .descriptors set => finishWriter (writeDescriptors set) = .ok bytes
  | .temporalUnit unit => validateTemporalUnit unit.audioFrames = .ok () ∧
      finishWriter (writeSequenceObus definitions unit.obus) = .ok bytes

def definitionsBehind (definitions : ParamDefinitionRegistry) : Call → ParamDefinitionRegistry
  | .descriptors set => .fromDescriptors set
  | .temporalUnit _ => definitions

end Call

namespace SequenceWriter

variable {W : Sink}

inductive Pushed (w : SequenceWriter W) (call : Call) : EStateM.Result Error (SequenceWriter W) Unit → Prop where
  | refused {e w'} (sink : w'.sink = w.sink) (count : w'.bytesWritten = w.bytesWritten) (state : w'.state = w.state)
      (definitions : w.state = .fresh ∨ w'.definitions = w.definitions)
      (poisoned : w.state = .poisoned → e = w.poisonedError)
      (cause : w.state = call.turn → ∀ bytes, ¬ call.Encodes w.definitions bytes) : Pushed w call (.error e w')
  | accepted {w' bytes} (turn : w.state = call.turn) (encodes : call.Encodes w.definitions bytes)
      (held : W.held w'.sink = W.held w.sink ++ bytes) (count : w'.bytesWritten = w.bytesWritten + bytes.length)
      (state : w'.state = .descriptorsWritten) (definitions : w'.definitions = call.definitionsBehind w.definitions)
      (unbroken : W.broken w'.sink = W.broken w.sink) : Pushed w call (.ok () w')
  | failed {e w' bytes n} (turn : w.state = call.turn) (encodes : call.Encodes w.definitions bytes)
      (inside : n ≤ bytes.length) (held : W.held w'.sink = W.held w.sink ++ bytes.take n)
      (count : w'.bytesWritten = w.bytesWritten + n) (state : w'.state = .poisoned)
      (broken : W.broken w'.sink = true) (cause : ¬ W.AcceptsAll) : Pushed w call (.error e w')
  | overflowed {e w' bytes n} (turn : w.state = call.turn) (encodes : call.Encodes w.definitions bytes)
      (inside : n ≤ bytes.length) (held : W.held w'.sink = W.held w.sink ++ bytes.take n)
      (exceeded : u64Max < w.bytesWritten + n) (state : w'.state = .poisoned) : Pushed w call (.error e w')

theorem pushUnitPushed (unit : TemporalUnit) (w : SequenceWriter W) :
    Pushed w (.temporalUnit unit) (pushTemporalUnit unit w) := by
  unfold pushTemporalUnit
  cases turn : w.state with
  | fresh => exact .refused rfl rfl rfl (.inl turn) (by rw [turn]; nofun) (by rw [turn]; nofun)
  | poisoned => exact .refused rfl rfl rfl (.inr rfl) (fun _ => rfl) (by rw [turn]; nofun)
  | descriptorsWritten =>
    simp only
    unfold preflightTemporalUnit
    rw [eachObuIs, eachObuIs, bind_assoc]
    have inUnit := unitInUnit unit
    cases valid : validateTemporalUnit unit.audioFrames with
    | error e =>
      refine .refused rfl rfl rfl (.inr rfl) (by rw [turn]; nofun) fun _ bytes encodes => ?_
      cases valid.symm.trans encodes.1
    | ok _ =>
      rw [orThrowOf _ rfl]
      cases encoded : finishWriter (writeSequenceObus w.definitions unit.obus) with
      | error e =>
        obtain ⟨e', scratch, failed⟩ := preflightFails inUnit encoded
        rw [bindError _ failed]
        refine .refused rfl rfl rfl (.inr rfl) (by rw [turn]; nofun) fun _ bytes encodes => ?_
        cases encoded.symm.trans encodes.2
      | ok bytes =>
        obtain ⟨scratch, checked⟩ := preflightOk inUnit encoded
        rw [bindOf _ checked]
        have encodes : (Call.temporalUnit unit).Encodes w.definitions bytes := ⟨valid, encoded⟩
        have sent := flushedScratch (emitObusFlushed (w := { w with scratch := scratch }) inUnit encoded)
        generalize writeEach (onObu emitPreflightedObu) unit.obus { w with scratch := scratch } = r at sent ⊢
        cases sent with
        | done held count state definitions unbroken =>
          exact .accepted turn encodes held count (state.trans turn) definitions unbroken
        | failed inside held count state broken cause =>
          exact .failed turn encodes inside held count state broken cause
        | overflowed inside held exceeded state => exact .overflowed turn encodes inside held exceeded state

theorem pushDescriptorsPushed (set : DescriptorSet) (w : SequenceWriter W) :
    Pushed w (.descriptors set) (pushDescriptors set w) := by
  unfold pushDescriptors
  cases turn : w.state with
  | descriptorsWritten => exact .refused rfl rfl rfl (.inr rfl) (by rw [turn]; nofun) (by rw [turn]; nofun)
  | poisoned => exact .refused rfl rfl rfl (.inr rfl) (fun _ => rfl) (by rw [turn]; nofun)
  | fresh =>
    simp only
    have octets := (agreeDescriptors set).left
    rw [bindOf _ (show (modify fun w => { w with definitions := .fromDescriptors set } : Push W) w =
        .ok () { w with definitions := .fromDescriptors set } from rfl), bindOf _ (clearScratchOk _)]
    cases encoded : finishWriter (writeDescriptors set) with
    | error e =>
      obtain ⟨e', scratch, ran, _⟩ := octets.2 e encoded .new rfl
      rw [bindError _ (inScratchError ran)]
      refine .refused rfl rfl rfl (.inl turn) (by rw [turn]; nofun) fun _ bytes encodes => ?_
      cases encoded.symm.trans encodes
    | ok bytes =>
      rw [bindOf _ (inScratchOk (octets.1 bytes encoded .new rfl))]
      have sent := flushFromFlushed bytes { w with
        definitions := .fromDescriptors set, scratch := append (bytesBits bytes) .new }
      rw [← flushScratchOf rfl] at sent
      cases ran : flushScratch { w with
        definitions := .fromDescriptors set, scratch := append (bytesBits bytes) .new } with
      | ok u w' =>
        rw [ran] at sent
        rw [bindOf _ ran]
        cases sent with
        | done held count state definitions unbroken =>
          exact .accepted turn encoded held count rfl definitions unbroken
      | error e w' =>
        rw [ran] at sent
        rw [bindError _ ran]
        cases sent with
        | failed inside held count state broken cause =>
          exact .failed turn encoded inside held count state broken cause
        | overflowed inside held exceeded state => exact .overflowed turn encoded inside held exceeded state

theorem pushed (call : Call) (w : SequenceWriter W) : Pushed w call (call.push w) := by
  cases call with
  | descriptors set => exact pushDescriptorsPushed set w
  | temporalUnit unit => exact pushUnitPushed unit w

end SequenceWriter

end Iamf.Wire
