import Iamf.ParameterBlock

/-! The two directions of the Parameter Block syntax agree under one registry. -/
namespace Iamf.Wire
open Bits BitString TapeCodec ReadTape WriteTape

def PlainGains (flag : UInt32) : Nat → Bytes → Prop
  | _, [] => True
  | index, gain :: gains => (flagged flag index = false → gain = 0) ∧ PlainGains flag (index + 1) gains

def ParameterData.Plain : ParameterData → Prop
  | .reconGain data => ∀ element, some element ∈ data.layers → PlainGains element.reconGainFlag 0 element.reconGain.val
  | _ => True

def ParameterBlock.Plain (block : ParameterBlock) : Prop := ∀ subblock ∈ block.subblocks, subblock.data.Plain

theorem pairedGain {flag : UInt32} {index : Nat} {gain : UInt8} (plain : flagged flag index = false → gain = 0) :
    Paired 0 0 (writeGain flag index gain) (readGain flag index) gain := by
  unfold writeGain readGain
  cases set : flagged flag index with
  | true => exact pairedPhase (pairedU8 0 gain (by omega)) rfl
  | false => rw [plain set]; exact pairedPure 0 0

theorem pairedGains {flag : UInt32} {n index : Nat} (gains : {bytes : Bytes // bytes.length = n})
    (plain : PlainGains flag index gains.val) :
    Paired 0 0 (writeGains flag index gains.val) (readGains flag n index) gains := by
  induction n generalizing index with
  | zero =>
    obtain ⟨gains, length⟩ := gains
    cases List.length_eq_zero_iff.mp length
    exact pairedPure 0 _
  | succ n ih =>
    obtain ⟨_ | ⟨gain, gains⟩, length⟩ := gains
    · cases length
    refine pairedBind (pairedGain plain.1) ?_
    exact pairedReturn (ih ⟨gains, by simpa using length⟩ plain.2) rfl

theorem pairedReconGainLayer {layer : Option ReconGainElement}
    (plain : ∀ element, layer = some element → PlainGains element.reconGainFlag 0 element.reconGain.val) :
    Paired 0 0 (writeReconGainLayer (layer, layer.isSome)) (readReconGainLayer layer.isSome) layer := by
  cases layer with
  | none => exact pairedPure 0 none
  | some element =>
    refine pairedBind (pairedUleb128 0 element.reconGainFlag) ?_
    exact pairedReturn (pairedGains element.reconGain (plain element rfl)) rfl

theorem pairedReconGainLayers (layers : List (Option ReconGainElement))
    (plain : ∀ element, some element ∈ layers → PlainGains element.reconGainFlag 0 element.reconGain.val) :
    Paired 0 0 (writeEach writeReconGainLayer (layers.zip (layers.map Option.isSome)))
      (readReconGainLayers (layers.map Option.isSome)) layers := by
  induction layers with
  | nil => exact pairedPure 0 []
  | cons layer layers ih =>
    refine pairedBind (pairedReconGainLayer fun element whole => plain element (by simp [whole])) ?_
    exact pairedReturn (ih fun element among => plain element (List.mem_cons_of_mem layer among)) rfl

theorem pairedMixGainParameterData (data : MixGainParameterData) (start : Nat) :
    Paired 0 0 (writeMixGainParameterData data)
      (readMixGainParameterData (.fromValue data.animationType.value) start) data := by
  cases data with
  | step first => exact pairedReturn (pairedPhase (pairedI16 0 first) rfl) rfl
  | linear first last =>
    refine pairedBind (pairedI16 0 first) ?_
    exact pairedReturn (pairedPhase (pairedI16 _ last) rfl) rfl
  | bezier first last control time =>
    refine pairedBind (pairedI16 0 first) ?_
    refine pairedBind (pairedI16 _ last) ?_
    refine pairedBind (pairedI16 _ control) ?_
    exact pairedReturn (pairedPhase (pairedU8 _ time (by omega)) rfl) rfl

theorem pairedParameterData {context : ParameterDataContext} {data : ParameterData}
    (kind : context.matchesData data = true) (plain : data.Plain) :
    Paired 0 0 (writeParameterData context data) (readParameterData context) data := by
  refine pairedPosition fun start => ?_
  cases context with
  | mixGain =>
    cases data with
    | mixGain data =>
      refine pairedBind (pairedUleb128 0 data.animationType.value) ?_
      exact pairedReturn (pairedMixGainParameterData data start) rfl
    | _ => cases kind
  | demixing =>
    cases data with
    | demixing data =>
      refine pairedBind (pairedU8 0 data.dmixpMode (by omega)) ?_
      exact pairedReturn (pairedPhase (pairedU8 _ data.reserved (by omega)) rfl) rfl
    | _ => cases kind
  | reconGain present =>
    cases data with
    | reconGain data =>
      obtain ⟨layers⟩ := data
      cases beq_iff_eq.mp kind
      exact pairedReturn (pairedReconGainLayers layers plain) rfl
    | _ => cases kind
  | reserved value =>
    cases data with
    | raw bytes =>
      refine pairedChecked kind (pairedCount fun fits => pairedReturn (pairedBytes fits.symm) rfl)
    | _ => cases kind

theorem pairedSubblockDuration (duration : Option UInt32) :
    Paired 0 0 (writeSubblockDuration duration) (readSubblockDuration duration.isSome) duration := by
  cases duration with
  | none => exact pairedPure 0 none
  | some value => exact pairedReturn (pairedUleb128 0 value) rfl

def ParameterSubblock.ownDuration (subblock : ParameterSubblock) : Nat :=
  subblock.subblockDuration.elim 0 (·.toNat)

def durationsOf (subblocks : List ParameterSubblock) : Nat := (subblocks.map (·.ownDuration)).sum

theorem durationsOfCons (subblock : ParameterSubblock) (subblocks : List ParameterSubblock) :
    durationsOf (subblock :: subblocks) = subblock.ownDuration + durationsOf subblocks := rfl

theorem ownDurationLe (subblock : ParameterSubblock) : subblock.ownDuration ≤ u32Max := by
  unfold ParameterSubblock.ownDuration u32Max
  cases subblock.subblockDuration with
  | none => exact Nat.zero_le _
  | some value => exact Nat.le_of_lt_succ value.toNat_lt

theorem addDurationOf (total : Nat) (subblock : ParameterSubblock) (e : Error)
    (room : total + subblock.ownDuration ≤ u64Max) :
    addDuration total subblock.subblockDuration e = .ok (total + subblock.ownDuration) := by
  unfold ParameterSubblock.ownDuration at room ⊢
  cases h : subblock.subblockDuration with
  | none => rfl
  | some value => rw [h] at room; exact if_pos room

structure ParameterSubblock.Fits (subblock : ParameterSubblock) (included : Bool) (context : ParameterDataContext) :
    Prop where
  duration : subblock.subblockDuration.isSome = included
  kind : context.matchesData subblock.data = true
  plain : subblock.data.Plain

theorem pairedSubblocks {included : Bool} {context : ParameterDataContext} (start : Nat)
    {subblocks : List ParameterSubblock} {total : Nat} (room : total + subblocks.length * u32Max ≤ u64Max)
    (fits : ∀ subblock ∈ subblocks, subblock.Fits included context) :
    Paired 0 0 (writeEach (writeSubblock context) subblocks)
      (readSubblocks included context start subblocks.length total) (subblocks, total + durationsOf subblocks) := by
  induction subblocks generalizing total with
  | nil => exact pairedPure 0 _
  | cons subblock subblocks ih =>
    obtain ⟨duration, kind, plain⟩ := fits subblock (by simp)
    have own := ownDurationLe subblock
    rw [List.length_cons, Nat.add_mul, Nat.one_mul] at room
    have counted := addDurationOf total subblock (inputError .subblockDurationMismatch start) (by omega)
    simp only [writeEach, writeSubblock, bind_assoc]
    refine pairedBind (f := readSubblockDuration included) (duration ▸ pairedSubblockDuration _) ?_
    rw [orThrowOf _ counted]
    refine pairedBind (pairedParameterData kind plain) ?_
    have others := ih (show total + subblock.ownDuration + _ ≤ _ by omega) fun other among =>
      fits other (List.mem_cons_of_mem _ among)
    refine pairedReturn others ?_
    rw [durationsOfCons, ← Nat.add_assoc]

theorem sumDurationsOf {carries : Bool} {subblocks : List ParameterSubblock} {total : Nat}
    (room : total + subblocks.length * u32Max ≤ u64Max)
    (carried : ∀ subblock ∈ subblocks, subblock.subblockDuration.isSome = carries) :
    sumDurations carries subblocks total = .ok (total + durationsOf subblocks) := by
  induction subblocks generalizing total with
  | nil => rfl
  | cons subblock subblocks ih =>
    have own := ownDurationLe subblock
    rw [List.length_cons, Nat.add_mul, Nat.one_mul] at room
    unfold sumDurations
    rw [if_neg (not_not.mpr (carried subblock (by simp))),
      exceptBindOf _ (addDurationOf total subblock _ (by omega)),
      ih (by omega) fun other among => carried other (List.mem_cons_of_mem _ among), durationsOfCons, Nat.add_assoc]

theorem sumDurationsOk {carries : Bool} {subblocks : List ParameterSubblock} {total sum : Nat}
    (ok : sumDurations carries subblocks total = .ok sum) : sum = total + durationsOf subblocks ∧
      ∀ subblock ∈ subblocks, subblock.subblockDuration.isSome = carries := by
  induction subblocks generalizing total with
  | nil => cases ok; exact ⟨rfl, by simp⟩
  | cons subblock subblocks ih =>
    unfold sumDurations at ok
    split at ok
    · cases ok
    rename_i carried
    obtain ⟨next, added, tail⟩ := exceptBindOk ok
    obtain ⟨rest, others⟩ := ih tail
    have value : next = total + subblock.ownDuration := by
      unfold addDuration at added
      unfold ParameterSubblock.ownDuration
      split at added
      · rename_i duration own
        split at added <;> cases added
        rw [own]; rfl
      · rename_i own
        cases added
        rw [own]; rfl
    refine ⟨?_, ?_⟩
    · rw [rest, value, durationsOfCons, Nat.add_assoc]
    · intro other among
      rcases List.mem_cons.mp among with rfl | among
      · exact not_not.mp carried
      · exact others other among

theorem validateKindsOk {context : ParameterDataContext} {subblocks : List ParameterSubblock} :
    validateKinds context subblocks = .ok () ↔ ∀ subblock ∈ subblocks, context.matchesData subblock.data = true := by
  induction subblocks with
  | nil => simp [validateKinds]
  | cons subblock subblocks ih =>
    unfold validateKinds validateParameterDataKind
    rw [List.forall_mem_cons, ← ih]
    split
    · rename_i kind
      exact ⟨fun rest => ⟨kind, rest⟩, fun both => both.2⟩
    · rename_i other
      exact ⟨fun failed => (by cases failed), fun both => absurd both.1 other⟩

theorem guardedOk {ok : Bool} {e : Error} : guarded ok e = .ok () ↔ ok = true := by
  cases ok <;> simp [guarded]

theorem checkSingleSubblockOk {context : ParameterDataContext} {count : Nat} {at' : Location} :
    checkSingleSubblock context count at' = .ok () ↔ (context.singleSubblock = true → count = 1) := by
  unfold checkSingleSubblock
  split
  · rename_i both
    exact ⟨fun failed => (by cases failed), fun one => absurd (one both.1) both.2⟩
  · rename_i neither
    exact ⟨fun _ single => by_contra fun other => neither ⟨single, other⟩, fun _ => rfl⟩

theorem u32TryFromOf {n : Nat} (e : Error) (small : n ≤ u32Max) : u32TryFrom n e = .ok (UInt32.ofNat n) := if_pos small

theorem u32TryFromIs {n : Nat} {e : Error} {v : UInt32} (ok : u32TryFrom n e = .ok v) :
    n ≤ u32Max ∧ v = UInt32.ofNat n := by
  unfold u32TryFrom at ok
  split at ok
  · rename_i small; cases ok; exact ⟨small, rfl⟩
  · cases ok

theorem subblocksImpliedByAt {duration constant n : UInt32} {a : Location} (b : Location)
    (ok : subblocksImpliedBy duration constant a = .ok n) : subblocksImpliedBy duration constant b = .ok n := by
  simp only [subblocksImpliedBy] at ok ⊢
  split_ifs at ok ⊢ <;> exact ok

theorem subblocksOfDefinitionAt {definition : ParamDefinition} {n : UInt32} {a a' a'' : Location} (b b' b'' : Location)
    (ok : subblocksOfDefinition definition a a' a'' = .ok n) : subblocksOfDefinition definition b b' b'' = .ok n := by
  unfold subblocksOfDefinition at ok ⊢
  split at ok
  · cases ok
  · split_ifs at ok ⊢
    · obtain ⟨small, rfl⟩ := u32TryFromIs ok
      exact u32TryFromOf _ small
    · exact subblocksImpliedByAt b'' ok

/-- A block its definition admits, whichever direction it goes. -/
structure ParameterBlock.Governed (block : ParameterBlock) (definition : ParamDefinition)
    (context : ParameterDataContext) : Prop where
  id : block.parameterId = definition.parameterId
  mode : block.durationFields.isSome = definition.paramDefinitionMode
  small : block.subblocks.length ≤ u32Max
  single : context.singleSubblock = true → block.subblocks.length = 1
  kinds : ∀ subblock ∈ block.subblocks, context.matchesData subblock.data = true
  carries : ∀ subblock ∈ block.subblocks,
    subblock.subblockDuration.isSome = BlockDurationFields.explicit block.durationFields
  total : ∀ fields, block.durationFields = some fields → fields.constantSubblockDuration = 0 →
    durationsOf block.subblocks = fields.duration.toNat
  implied : ∀ fields, block.durationFields = some fields → fields.constantSubblockDuration ≠ 0 →
    ∀ at', subblocksImpliedBy fields.duration fields.constantSubblockDuration at' =
      .ok (UInt32.ofNat block.subblocks.length)
  defined : block.durationFields = none → ∀ a b c,
    subblocksOfDefinition definition a b c = .ok (UInt32.ofNat block.subblocks.length)

theorem governedOf {definition : ParamDefinition} {context : ParameterDataContext} {block : ParameterBlock}
    (ok : validateParameterBlock definition context block = .ok ()) : block.Governed definition context := by
  obtain ⟨_, id, ok⟩ := exceptBindOk ok
  obtain ⟨_, mode, ok⟩ := exceptBindOk ok
  obtain ⟨_, kinds, ok⟩ := exceptBindOk ok
  obtain ⟨⟨expectedCount, carries, declared⟩, expected, ok⟩ := exceptBindOk ok
  obtain ⟨actualCount, actual, ok⟩ := exceptBindOk ok
  obtain ⟨_, single, ok⟩ := exceptBindOk ok
  obtain ⟨_, equal, ok⟩ := exceptBindOk ok
  obtain ⟨sum, summed, total⟩ := exceptBindOk ok
  obtain ⟨small, rfl⟩ := u32TryFromIs actual
  cases beq_iff_eq.mp (guardedOk.mp equal)
  obtain ⟨rfl, carried⟩ := sumDurationsOk summed
  have declaredTotal := guardedOk.mp total
  rw [Nat.zero_add] at declaredTotal
  have one : context.singleSubblock = true → block.subblocks.length = 1 := by
    intro only
    have count := checkSingleSubblockOk.mp single only
    rwa [countFits small] at count
  have parts : ∀ fields, block.durationFields = some fields →
      if fields.constantSubblockDuration = 0 then carries = true ∧ declared = some fields.duration
      else carries = false ∧ subblocksImpliedBy fields.duration fields.constantSubblockDuration (.field "subblocks") =
        .ok (UInt32.ofNat block.subblocks.length) := by
    intro fields present
    simp only [expectedSubblocks, present] at expected
    split_ifs at expected ⊢
    · obtain ⟨_, _, last⟩ := exceptBindOk expected
      cases last
      exact ⟨rfl, rfl⟩
    · obtain ⟨_, implied, last⟩ := exceptBindOk expected
      cases last
      exact ⟨rfl, implied⟩
  refine ⟨beq_iff_eq.mp (guardedOk.mp id), beq_iff_eq.mp (guardedOk.mp mode), small, one, validateKindsOk.mp kinds,
    ?_, ?_, ?_, ?_⟩
  · suffices same : carries = BlockDurationFields.explicit block.durationFields from same ▸ carried
    cases present : block.durationFields with
    | none =>
      simp only [expectedSubblocks, present] at expected
      obtain ⟨_, _, last⟩ := exceptBindOk expected
      cases last
      rfl
    | some fields =>
      have part := parts fields present
      split_ifs at part with zero
      · rw [part.1, BlockDurationFields.explicit, Option.any_some, zero]; rfl
      · rw [part.1, BlockDurationFields.explicit, Option.any_some, beq_eq_false_iff_ne.mpr zero]
  · intro fields present zero
    have part := parts fields present
    rw [if_pos zero] at part
    simpa [part.2] using declaredTotal
  · intro fields present nonzero at'
    have part := parts fields present
    rw [if_neg nonzero] at part
    exact subblocksImpliedByAt at' part.2
  · intro absent a b c
    simp only [expectedSubblocks, absent] at expected
    obtain ⟨_, defined, last⟩ := exceptBindOk expected
    cases last
    exact subblocksOfDefinitionAt a b c defined

theorem validateOf {definition : ParamDefinition} {context : ParameterDataContext} {block : ParameterBlock}
    (governed : block.Governed definition context) : validateParameterBlock definition context block = .ok () := by
  have room : 0 + block.subblocks.length * u32Max ≤ u64Max := by
    have small := governed.small
    simp only [u32Max, u64Max] at small ⊢
    omega
  have single : checkSingleSubblock context (UInt32.ofNat block.subblocks.length).toNat (.field "subblocks") = .ok () := by
    rw [countFits governed.small]
    exact checkSingleSubblockOk.mpr governed.single
  obtain ⟨declared, expected, total⟩ : ∃ declared, expectedSubblocks definition block = .ok
      (UInt32.ofNat block.subblocks.length, BlockDurationFields.explicit block.durationFields, declared) ∧
      (declared.all fun duration : UInt32 => 0 + durationsOf block.subblocks == duration.toNat) = true := by
    unfold expectedSubblocks
    cases present : block.durationFields with
    | none =>
      simp only [exceptBindOf _ (governed.defined present _ _ _)]
      exact ⟨none, rfl, rfl⟩
    | some fields =>
      simp only
      by_cases zero : fields.constantSubblockDuration = 0
      · rw [if_pos zero, exceptBindOf _ (u32TryFromOf _ governed.small), BlockDurationFields.explicit,
          Option.any_some, zero]
        exact ⟨some fields.duration, rfl, by simp [governed.total fields present zero]⟩
      · rw [if_neg zero, exceptBindOf _ (governed.implied fields present zero _), BlockDurationFields.explicit,
          Option.any_some, beq_eq_false_iff_ne.mpr zero]
        exact ⟨none, rfl, rfl⟩
  unfold validateParameterBlock
  rw [exceptBindOf _ (guardedOk.mpr (beq_iff_eq.mpr governed.id)),
    exceptBindOf _ (guardedOk.mpr (beq_iff_eq.mpr governed.mode)),
    exceptBindOf _ (validateKindsOk.mpr governed.kinds), exceptBindOf _ expected]
  simp only [exceptBindOf _ (u32TryFromOf _ governed.small), exceptBindOf _ single]
  rw [exceptBindOf _ (guardedOk.mpr (beq_self_eq_true _)), exceptBindOf _ (sumDurationsOf room governed.carries)]
  exact guardedOk.mpr total

theorem pairedPeek {T U : Type} {φ χ ψ : Nat} {g : Writer Unit} {k : Unit → Writer Unit} {f : Reader T}
    {j j' : T → Reader U} {v : T} {u : U} (first : Paired φ χ g f v) (next : Paired χ ψ (k ()) (j' v) u)
    (same : j v = f >>= j') : Paired φ ψ (g >>= k) (peek f >>= j) u := by
  rcases first with refused | ⟨bs, bsPhase, emits, reads⟩
  · exact .inl (refusesBind k refused)
  rcases pairedBind (k := k) (j := j') (.inr ⟨bs, bsPhase, emits, reads⟩) next with refused | ⟨cs, csPhase, both, through⟩
  · exact .inl refused
  refine .inr ⟨cs, csPhase, both, fun r tail offset split => ?_⟩
  rcases next with refused | ⟨ds, _, others, _⟩
  · exact absurd (refusesNext emits refused) (emitsNotRefuses both)
  have whole := through r tail offset split
  rw [emitsUnique both (emitsBind emits others), List.append_assoc] at split
  have ahead : peek f r = .ok v r := by simp only [peek, reads r _ offset split]
  rw [bindOf _ ahead, same, whole]

theorem consumesPeek {T : Type} {f : Reader T} : Consumes (peek f) fun _ bs => bs = [] := by
  intro r v r' ok
  unfold peek at ok
  split at ok
  · cases ok
    exact ⟨[], rest r, rfl, (advanceZero r).symm, rfl⟩
  · cases ok

theorem pairedBlockDurations {definition : ParamDefinition} {context : ParameterDataContext} {block : ParameterBlock}
    (governed : block.Governed definition context) (start : Nat) :
    Paired 0 0 (writeBlockDurations block) (readBlockDurations definition start)
      (block.durationFields, UInt32.ofNat block.subblocks.length) := by
  unfold writeBlockDurations readBlockDurations
  have mode := governed.mode
  cases present : block.durationFields with
  | none =>
    rw [present] at mode
    rw [if_neg (by rw [← mode]; simp), orThrowOf _ (governed.defined present _ _ _)]
    exact pairedPure 0 _
  | some fields =>
    rw [present] at mode
    rw [if_pos (show definition.paramDefinitionMode = true from mode.symm)]
    refine pairedBind (pairedUleb128 0 fields.duration) ?_
    refine pairedBind (pairedUleb128 0 fields.constantSubblockDuration) ?_
    refine pairedReturn (v := UInt32.ofNat block.subblocks.length) ?_ rfl
    unfold writeNumSubblocks readNumSubblocks
    by_cases zero : fields.constantSubblockDuration = 0
    · rw [if_pos zero, if_pos zero]
      exact pairedCountAlone 0 _ _
    · rw [if_neg zero, if_neg zero, governed.implied fields present zero]
      exact pairedPure 0 _

def readSubblock (included : Bool) (context : ParameterDataContext) : Reader ParameterSubblock := do
  let duration ← readSubblockDuration included
  let data ← readParameterData context
  pure ⟨duration, data⟩

theorem pairedSubblock {subblock : ParameterSubblock} {included : Bool} {context : ParameterDataContext}
    (fits : subblock.Fits included context) :
    Paired 0 0 (writeSubblock context subblock) (readSubblock included context) subblock := by
  obtain ⟨rfl, kind, plain⟩ := fits
  refine pairedBind (pairedSubblockDuration _) ?_
  exact pairedReturn (pairedParameterData kind plain) rfl

theorem hungrySubblock {included : Bool} {context : ParameterDataContext}
    (octet : context.zeroByteSubblockPossible = false) : Hungry (readSubblock included context) := by
  cases included with
  | true => exact hungryBind _ (hungryBind _ hungryUleb128)
  | false =>
    change Hungry (readParameterData context >>= fun data => pure (⟨none, data⟩ : ParameterSubblock))
    refine hungryBind _ (hungryPosition fun start => ?_)
    cases context with
    | mixGain => exact hungryBind _ hungryUleb128
    | demixing => exact hungryBind _ (hungryBind _ (hungryUnsigned (by omega)))
    | reconGain present => cases octet
    | reserved value =>
      simp only
      cases decide (3 ≤ value.toNat) with
      | true => exact fun r empty => hungryBind _ hungryUleb128 r empty
      | false => exact fun r _ => ⟨_, r, rfl⟩

theorem pairedParameterBlock {registry : ParamDefinitionRegistry} {entry : RegisteredParamDefinition}
    {block : ParameterBlock} (governing : registry.get block.parameterId = some entry) (plain : block.Plain) :
    Paired 0 0 (writeParameterBlock entry.definition entry.context block) (readParameterBlock registry) block := by
  unfold writeParameterBlock
  cases valid : validateParameterBlock entry.definition entry.context block with
  | error e => exact .inl (refusesBind _ (refusesThrow e))
  | ok _ =>
    rw [orThrowOf _ rfl]
    have governed := governedOf valid
    have fits : ∀ subblock ∈ block.subblocks,
        subblock.Fits (BlockDurationFields.explicit block.durationFields) entry.context := fun subblock among =>
      ⟨governed.carries subblock among, governed.kinds subblock among, plain subblock among⟩
    have count := countFits governed.small
    have single : checkSingleSubblock entry.context (UInt32.ofNat block.subblocks.length).toNat = fun _ => .ok () := by
      funext at'
      rw [count]
      exact checkSingleSubblockOk.mpr governed.single
    have room : 0 + block.subblocks.length * u32Max ≤ u64Max := by
      have small := governed.small
      simp only [u32Max, u64Max] at small ⊢
      omega
    refine pairedPosition fun start => ?_
    refine pairedPeek (pairedUleb128 0 block.parameterId) ?_ (by rw [governing]; rfl)
    refine pairedChecked (beq_iff_eq.mpr governed.id) ?_
    refine pairedBind (pairedBlockDurations governed start) ?_
    simp only
    rw [orThrowOf _ (congrFun single _), count]
    have loop := pairedSubblocks start room fits
    have finish : Paired 0 0 (writeEach (writeSubblock entry.context) block.subblocks) _ block :=
      pairedReturn (j := fun pair => ensure (!BlockDurationFields.explicit block.durationFields ||
          pair.2 == (block.durationFields.elim 0 fun fields => fields.duration.toNat))
          (inputError .subblockDurationMismatch start) >>= fun _ =>
        pure ⟨block.parameterId, block.durationFields, pair.1⟩) loop (by
        have total : (!BlockDurationFields.explicit block.durationFields || 0 + durationsOf block.subblocks ==
            (block.durationFields.elim 0 fun fields => fields.duration.toNat)) = true := by
          cases present : block.durationFields with
          | none => rfl
          | some fields =>
            by_cases zero : fields.constantSubblockDuration = 0
            · simp [governed.total fields present zero]
            · simp [BlockDurationFields.explicit, zero]
        simp only [total, ensureTrue]
        rfl)
    cases octet : entry.context.zeroByteSubblockPossible with
    | true =>
      simp only [Bool.true_or]
      exact pairedRemaining fun _ => finish
    | false =>
      simp only [Bool.false_or]
      exact pairedEnough finish (longEnough (hungrySubblock octet) fun subblock among =>
        pairedSubblock (fits subblock among))

theorem parameterBlockWritesBack {registry : ParamDefinitionRegistry} {entry : RegisteredParamDefinition} :
    WritesBack (readParameterBlock registry) (writeParameterBlock entry.definition entry.context)
      fun v _ => registry.get v.parameterId = some entry ∧ v.Plain :=
  writesBackOf fun _ both => pairedParameterBlock both.1 both.2

theorem consumesGain (canonical : Prop) (flag : UInt32) (index : Nat) : Consumes (readGain flag index) fun v bs =>
    (flagged flag index = false → v = 0) ∧ Rewrites canonical (writeGain flag index v) bs := by
  unfold readGain writeGain
  split
  · rename_i set
    exact consumesMono (consumesU8 canonical (by omega)) fun _ _ ⟨_, _, rewrites⟩ =>
      ⟨fun unset => absurd set (by rw [unset]; simp), rewrites⟩
  · exact consumesPure ⟨fun _ => rfl, rewritesPure⟩

theorem consumesGains (canonical : Prop) (flag : UInt32) (n index : Nat) :
    Consumes (readGains flag n index) fun v bs => PlainGains flag index v.val ∧
      Rewrites canonical (writeGains flag index v.val) bs := by
  induction n generalizing index with
  | zero => exact consumesPure ⟨trivial, rewritesPure⟩
  | succ n ih =>
    refine consumesBind (consumesGain canonical flag index) fun gain b1 ⟨plain, r1⟩ => ?_
    refine consumesBind (ih (index + 1)) fun gains b2 ⟨others, r2⟩ => consumesPure ?_
    rw [List.append_nil]
    exact ⟨⟨plain, others⟩, rewritesBind r1 r2⟩

section

variable [UlebForm]

theorem consumesReconGainLayer (present : Bool) : Consumes (readReconGainLayer present) fun v bs =>
    v.isSome = present ∧ (∀ element, v = some element → PlainGains element.reconGainFlag 0 element.reconGain.val) ∧
      Rewrites Canonical (writeReconGainLayer (v, present)) bs := by
  cases present with
  | false => exact consumesPure ⟨rfl, by simp, rewritesPure⟩
  | true =>
    refine consumesBind consumesUleb128 fun flag b1 r1 => ?_
    refine consumesBind (consumesGains Canonical flag 12 0) fun gains b2 ⟨plain, r2⟩ => consumesPure ?_
    rw [List.append_nil]
    refine ⟨rfl, ?_, rewritesBind r1 r2⟩
    rintro element ⟨⟩
    exact plain

theorem consumesReconGainLayers (present : List Bool) : Consumes (readReconGainLayers present) fun v bs =>
    v.map Option.isSome = present ∧
      (∀ element, some element ∈ v → PlainGains element.reconGainFlag 0 element.reconGain.val) ∧
      Rewrites Canonical (writeEach writeReconGainLayer (v.zip present)) bs := by
  induction present with
  | nil => exact consumesPure ⟨rfl, by simp, rewritesPure⟩
  | cons here present ih =>
    refine consumesBind (consumesReconGainLayer here) fun layer b1 ⟨some', plain, r1⟩ => ?_
    refine consumesBind ih fun layers b2 ⟨somes, others, r2⟩ => consumesPure ?_
    rw [List.append_nil]
    refine ⟨by rw [List.map_cons, some', somes], ?_, rewritesBind r1 r2⟩
    intro element among
    rcases List.mem_cons.mp among with here | there
    · exact plain element here.symm
    · exact others element there

theorem consumesMixGainParameterData (raw : UInt32) (start : Nat) :
    Consumes (readMixGainParameterData (.fromValue raw) start) fun v bs => v.animationType.value = raw ∧
      Rewrites Canonical (writeMixGainParameterData v) bs := by
  have value := AnimationType.valueOfFromValue raw
  cases animation : AnimationType.fromValue raw with
  | step =>
    rw [animation] at value
    refine consumesBind (consumesI16 Canonical) fun first b1 ⟨_, r1⟩ => consumesPure ?_
    rw [List.append_nil]
    exact ⟨value, r1⟩
  | linear =>
    rw [animation] at value
    refine consumesBind (consumesI16 Canonical) fun first b1 ⟨_, r1⟩ => ?_
    refine consumesBind (consumesI16 Canonical) fun last b2 ⟨_, r2⟩ => consumesPure ?_
    rw [List.append_nil]
    exact ⟨value, rewritesBind r1 r2⟩
  | bezier =>
    rw [animation] at value
    refine consumesBind (consumesI16 Canonical) fun first b1 ⟨_, r1⟩ => ?_
    refine consumesBind (consumesI16 Canonical) fun last b2 ⟨_, r2⟩ => ?_
    refine consumesBind (consumesI16 Canonical) fun control b3 ⟨_, r3⟩ => ?_
    refine consumesBind (consumesU8 Canonical (by omega)) fun time b4 ⟨_, _, r4⟩ => consumesPure ?_
    rw [List.append_nil]
    exact ⟨value, rewritesBind r1 (rewritesBind r2 (rewritesBind r3 r4))⟩
  | reserved raw => exact consumesThrow _ _

theorem consumesParameterData (context : ParameterDataContext) : Consumes (readParameterData context) fun v bs =>
    context.matchesData v = true ∧ v.Plain ∧ Rewrites Canonical (writeParameterData context v) bs := by
  refine consumesBind consumesPosition fun start bs empty => ?_
  subst empty
  simp only [List.nil_append]
  cases context with
  | mixGain =>
    refine consumesBind consumesUleb128 fun raw b1 r1 => ?_
    refine consumesBind (consumesMixGainParameterData raw start) fun data b2 ⟨value, r2⟩ => consumesPure ?_
    subst value
    rw [List.append_nil]
    exact ⟨rfl, trivial, rewritesBind r1 r2⟩
  | demixing =>
    refine consumesBind (consumesU8 Canonical (by omega)) fun mode b1 ⟨_, _, r1⟩ => ?_
    refine consumesBind (consumesU8 Canonical (by omega)) fun reserved b2 ⟨_, _, r2⟩ => consumesPure ?_
    rw [List.append_nil]
    exact ⟨rfl, trivial, rewritesBind r1 r2⟩
  | reconGain present =>
    refine consumesBind (consumesReconGainLayers present) fun layers b1 ⟨somes, plain, r1⟩ => consumesPure ?_
    rw [List.append_nil]
    exact ⟨beq_iff_eq.mpr somes, plain, r1⟩
  | reserved value =>
    refine consumesEnsure fun unknown => ?_
    refine consumesBind consumesUleb128 fun size b1 r1 => ?_
    refine consumesBind (consumesSpan size.toNat) fun bytes b2 ⟨length, bits⟩ => consumesPure ?_
    subst bits
    rw [List.append_nil]
    exact ⟨unknown, trivial, rewritesBind (rewritesCount length r1) (rewritesBytes bytes)⟩

theorem consumesSubblockDuration (included : Bool) : Consumes (readSubblockDuration included) fun v bs =>
    v.isSome = included ∧ Rewrites Canonical (writeSubblockDuration v) bs := by
  cases included with
  | false => exact consumesPure ⟨rfl, rewritesPure⟩
  | true =>
    refine consumesBind consumesUleb128 fun value b1 r1 => consumesPure ?_
    rw [List.append_nil]
    exact ⟨rfl, r1⟩

theorem consumesSubblocks (included : Bool) (context : ParameterDataContext) (start n total : Nat) :
    Consumes (readSubblocks included context start n total) fun v bs => v.1.length = n ∧
      v.2 = total + durationsOf v.1 ∧ (∀ subblock ∈ v.1, subblock.Fits included context) ∧
      Rewrites Canonical (writeEach (writeSubblock context) v.1) bs := by
  induction n generalizing total with
  | zero => exact consumesPure ⟨rfl, rfl, by simp, rewritesPure⟩
  | succ n ih =>
    refine consumesBind (consumesSubblockDuration included) fun duration b1 ⟨carried, r1⟩ => ?_
    refine consumesBind (P := fun next bs => bs = [] ∧ next = total + duration.elim 0 (·.toNat))
      (consumesOrThrow fun next added => ⟨rfl, ?_⟩) fun next bs ⟨empty, value⟩ => ?_
    · unfold addDuration at added
      split at added
      · split at added <;> cases added
        rfl
      · cases added
        rfl
    subst empty value
    refine consumesBind (consumesParameterData context) fun data b2 ⟨kind, plain, r2⟩ => ?_
    refine consumesBind (ih _) fun ⟨subblocks, sum⟩ b3 ⟨length, sums, fits, r3⟩ => consumesPure ?_
    simp only at length sums fits r3
    subst length sums
    rw [List.append_nil, List.nil_append, ← List.append_assoc]
    refine ⟨rfl, ?_, ?_, rewritesBind (rewritesBind r1 r2) r3⟩
    · rw [durationsOfCons, Nat.add_assoc]
      rfl
    · intro subblock among
      rcases List.mem_cons.mp among with rfl | among
      · exact ⟨carried, kind, plain⟩
      · exact fits subblock among

theorem consumesNumSubblocks (duration constant : UInt32) (start : Nat) :
    Consumes (readNumSubblocks duration constant start) fun n bs =>
      (∀ len, len = n.toNat → Rewrites Canonical (writeNumSubblocks constant len) bs) ∧
      (constant ≠ 0 → ∀ at', subblocksImpliedBy duration constant at' = .ok n) := by
  unfold readNumSubblocks writeNumSubblocks
  by_cases zero : constant = 0
  · simp only [if_pos zero]
    refine consumesMono consumesUleb128 fun n bs rewrites => ⟨fun len count => rewritesCount count rewrites, ?_⟩
    exact fun nonzero => absurd zero nonzero
  · simp only [if_neg zero]
    exact consumesOrThrow fun n implied => ⟨fun _ _ => rewritesPure, fun _ at' => subblocksImpliedByAt at' implied⟩

theorem consumesBlockDurations (definition : ParamDefinition) (start : Nat) :
    Consumes (readBlockDurations definition start) fun v bs => v.1.isSome = definition.paramDefinitionMode ∧
      (∀ block : ParameterBlock, block.durationFields = v.1 → block.subblocks.length = v.2.toNat →
        Rewrites Canonical (writeBlockDurations block) bs) ∧
      (∀ fields, v.1 = some fields → fields.constantSubblockDuration ≠ 0 → ∀ at',
        subblocksImpliedBy fields.duration fields.constantSubblockDuration at' = .ok v.2) ∧
      (v.1 = none → ∀ a b c, subblocksOfDefinition definition a b c = .ok v.2) := by
  unfold readBlockDurations
  split
  · rename_i mode
    refine consumesBind consumesUleb128 fun duration b1 r1 => ?_
    refine consumesBind consumesUleb128 fun constant b2 r2 => ?_
    refine consumesBind (consumesNumSubblocks duration constant start) fun n b3 ⟨r3, implied⟩ => consumesPure ?_
    rw [List.append_nil]
    refine ⟨mode.symm, fun block fields count => ?_, ?_, fun absent => by cases absent⟩
    · unfold writeBlockDurations
      rw [fields]
      exact rewritesBind r1 (rewritesBind r2 (r3 _ count))
    · rintro fields ⟨⟩ nonzero
      exact implied nonzero
  · rename_i mode
    refine consumesBind (P := fun n bs => bs = [] ∧ ∀ a b c, subblocksOfDefinition definition a b c = .ok n)
      (consumesOrThrow fun n defined => ⟨rfl, fun a b c => subblocksOfDefinitionAt a b c defined⟩)
      fun n bs ⟨empty, defined⟩ => consumesPure ?_
    subst empty
    refine ⟨(Bool.not_eq_true _ ▸ mode : definition.paramDefinitionMode = false).symm, fun block fields _ => ?_, by simp,
      fun _ => defined⟩
    unfold writeBlockDurations
    rw [fields]
    exact rewritesPure

theorem consumesParameterBlock (registry : ParamDefinitionRegistry) :
    Consumes (readParameterBlock registry) fun v bs => ∃ entry, registry.get v.parameterId = some entry ∧
      Rewrites Canonical (writeParameterBlock entry.definition entry.context v) bs ∧ v.Plain := by
  refine consumesBind consumesPosition fun start bs empty => ?_
  subst empty
  refine consumesBind consumesPeek fun peeked bs empty => ?_
  subst empty
  refine consumesBind (P := fun entry bs => bs = [] ∧ registry.get peeked = some entry)
    (consumesOrThrow fun entry found => ⟨rfl, ?_⟩) fun entry bs ⟨empty, found⟩ => ?_
  · cases known : registry.get peeked with
    | none => rw [known] at found; cases found
    | some other => rw [known] at found; cases found; rfl
  subst empty
  refine consumesBind consumesUleb128 fun id b1 r1 => consumesEnsure fun same => ?_
  have own := beq_iff_eq.mp same
  refine consumesBind (consumesBlockDurations entry.definition start)
    fun ⟨fields, count⟩ b2 ⟨mode, r2, implied, defined⟩ => ?_
  refine consumesBind (P := fun _ bs => bs = [] ∧ (entry.context.singleSubblock = true → count.toNat = 1))
    (consumesOrThrow fun u single => ⟨rfl, checkSingleSubblockOk.mp (by cases u; exact single)⟩)
    fun _ bs ⟨empty, single⟩ => ?_
  subst empty
  refine consumesBind consumesRemaining fun n bs empty => consumesEnsure fun _ => ?_
  subst empty
  refine consumesBind (consumesSubblocks _ entry.context start count.toNat 0)
    fun ⟨subblocks, total⟩ b3 ⟨length, sum, fits, r3⟩ => consumesEnsure fun balanced => consumesPure ?_
  simp only at mode r2 implied defined length sum fits r3 balanced
  simp only [List.append_nil, List.nil_append]
  have counted : UInt32.ofNat subblocks.length = count := by rw [length, UInt32.ofNat_toNat]
  have governed : (⟨id, fields, subblocks⟩ : ParameterBlock).Governed entry.definition entry.context := {
    id := own
    mode := mode
    small := by
      have register := count.toNat_lt
      simp only [u32Max]
      omega
    single := fun only => length.trans (single only)
    kinds := fun subblock among => (fits subblock among).kind
    carries := fun subblock among => (fits subblock among).duration
    total := by
      rintro durations rfl zero
      have explicit : BlockDurationFields.explicit (some durations) = true := by
        simp [BlockDurationFields.explicit, zero]
      rw [explicit, sum] at balanced
      simpa using balanced
    implied := fun durations present nonzero at' => by
      rw [counted]; exact implied durations present nonzero at'
    defined := fun absent a b c => by rw [counted]; exact defined absent a b c }
  refine ⟨entry, ?_, ?_, fun subblock among => (fits subblock among).plain⟩
  · rw [own, ParamDefinitionRegistry.getId found]
    exact found
  · unfold writeParameterBlock
    rw [orThrowOf _ (validateOf governed)]
    exact rewritesBind r1 (rewritesBind (r2 _ rfl length) r3)

theorem parameterBlockReadsBack {registry : ParamDefinitionRegistry} {payload trailing : Bytes} {v : ParameterBlock}
    (ok : parsePayload (readParameterBlock registry) payload = .ok (v, trailing)) :
    ∃ entry, registry.get v.parameterId = some entry ∧ v.Plain ∧
      ∃ bytes, finishWriter (writeParameterBlock entry.definition entry.context v) = .ok bytes ∧
        bytes.length + trailing.length ≤ payload.length ∧ (Canonical → bytes ++ trailing = payload) := by
  have consumes : Consumes (readParameterBlock registry) fun v bs =>
      Rewrites Canonical ((registry.get v.parameterId).elim (throw ⟨.noGoverningParamDefinition, .unlocated⟩)
        fun entry => writeParameterBlock entry.definition entry.context v) bs ∧
      (v.Plain ∧ ∃ entry, registry.get v.parameterId = some entry) :=
    consumesMono (consumesParameterBlock registry) fun v bs ⟨entry, found, rewrites, plain⟩ =>
      ⟨by rw [found]; exact rewrites, plain, entry, found⟩
  obtain ⟨⟨plain, entry, found⟩, bytes, written, rest⟩ := parsePayloadRewrites consumes ok
  rw [found] at written
  exact ⟨entry, found, plain, bytes, written, rest⟩

end

end Iamf.Wire
