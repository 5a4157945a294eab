import Iamf.ProfileSelection

/-! The rules on the profiles of a header beside the selection. A header passes when the selection for
some one presentation stays below it; the selected profile, which has to do for all, passes as well. -/
namespace Iamf.Wire
open TapeCodec

def profileRules (primaryProfile additionalProfile : UInt8) (elements : List AudioElement)
    (presentations : List MixPresentation) : List Finding :=
  complianceFindings primaryProfile additionalProfile elements presentations ++
    sequenceLimitFindings primaryProfile elements

theorem compliesIff {elements : List AudioElement} {presentations : List MixPresentation} {profile : Profile} :
    compliesWith elements presentations profile = true ↔ ∃ m ∈ presentations, Suffices elements profile m := by
  unfold compliesWith
  rw [List.any_eq_true]
  refine exists_congr fun m => and_congr_right fun _ => ?_
  unfold Suffices
  cases minimum : presentationMinimumProfile m elements with
  | ok needed => simp
  | error e => simp

theorem complianceIff {primary additional : UInt8} {elements : List AudioElement} {presentations : List MixPresentation}
    (known : (Profile.fromWire primary).isReserved = false) :
    complianceFindings primary additional elements presentations = [] ↔
      (∃ m ∈ presentations, Suffices elements (.fromWire primary) m) ∧
        (additional ≠ primary → (Profile.fromWire additional).isReserved = false →
          ∃ m ∈ presentations, Suffices elements (.fromWire additional) m) := by
  unfold complianceFindings
  simp only [known, Bool.false_eq_true, if_false, List.append_eq_nil_iff, findingIfNil, Bool.not_eq_false', ← compliesIff,
    Bool.and_eq_false_iff, bne_eq_false_iff_eq]
  refine and_congr_right fun _ => ?_
  rw [or_assoc, or_iff_not_imp_left, ← Ne, or_iff_not_imp_left, Bool.not_eq_true]

theorem totalChannelsStop {elements : List AudioElement} {start : Nat} {e : Error}
    (fixed : ∀ element ∈ elements, FixedChannels element) (failed : elements.foldlM addChannels start = .error e) :
    e.kind = .channelCountExceedsProfile := by
  induction elements generalizing start with
  | nil => cases failed
  | cons element elements ih =>
    rw [List.forall_mem_cons] at fixed
    obtain ⟨⟨count, counted⟩, others⟩ := fixed
    have first : addChannels start element = if start + count ≤ u32Max then .ok (start + count)
        else .error ⟨.channelCountExceedsProfile, .field "loudspeaker_layout"⟩ := exceptBindOf _ counted
    rw [List.foldlM_cons, first] at failed
    split_ifs at failed
    · exact ih others failed
    · cases failed
      rfl

theorem sequenceFloorStops {elements : List AudioElement} {e : Error}
    (fixed : ∀ element ∈ uniqueElements elements, FixedChannels element) (failed : sequenceFloor elements = .error e) :
    e.kind = .elementCountExceedsProfile ∨ e.kind = .channelCountExceedsProfile := by
  have known : ∀ element ∈ uniqueById elements, FixedChannels element := by
    intro element among
    exact fixed element (by rwa [← uniqueToFinset, List.mem_toFinset])
  unfold sequenceFloor checkElementCount at failed
  split_ifs at failed with many
  · cases failed
    exact .inl rfl
  · cases total : totalChannelCount (uniqueById elements) with
    | error e' =>
      rw [total] at failed
      cases failed
      exact .inr (totalChannelsStop known total)
    | ok count =>
      rw [total] at failed
      unfold checkChannelCount at failed
      change (if count > baseEnhancedMaxChannels then _ else _ : Except Error Unit) >>= _ = _ at failed
      split_ifs at failed
      · cases failed
        exact .inr rfl
      · cases failed

theorem limitsIff {primary : UInt8} {elements : List AudioElement}
    (fixed : ∀ element ∈ uniqueElements elements, FixedChannels element)
    (known : (Profile.fromWire primary).isReserved = false) : sequenceLimitFindings primary elements = [] ↔
      ∃ floor, sequenceFloor elements = .ok floor ∧ floor ≤ .fromWire primary := by
  unfold sequenceLimitFindings aboveProfile
  cases floored : sequenceFloor elements with
  | ok floor => simp [known, findingIfNil]
  | error e =>
    rcases sequenceFloorStops fixed floored with kind | kind <;> simp [known, kind]

theorem selectedOne {elements : List AudioElement} {m : MixPresentation} {profile : Profile} :
    (∃ selected, selectSequenceProfile elements [m] = .ok (selected, selected) ∧ selected ≤ profile) ↔
      (∃ floor, sequenceFloor elements = .ok floor ∧ floor ≤ profile) ∧ Suffices elements profile m := by
  constructor
  · rintro ⟨selected, ok, below⟩
    obtain ⟨_, _, ⟨floor, floored, low⟩, each⟩ := selectSequenceProfileOk ok
    obtain ⟨needed, minimum, least⟩ := each m (List.mem_singleton_self m)
    exact ⟨⟨floor, floored, le_trans low below⟩, needed, minimum, le_trans least below⟩
  · rintro ⟨⟨floor, floored, low⟩, needed, minimum, least⟩
    have raised : [m].foldlM (raiseFor elements) floor = .ok (max floor needed) := by
      rw [List.foldlM_cons, raiseFor, exceptBindOf _ minimum]
      rfl
    refine ⟨max floor needed, ?_, max_le low least⟩
    unfold selectSequenceProfile
    rw [exceptBindOf _ floored, exceptBindOf _ raised]

theorem profileRulesSelection {elements : List AudioElement}
    (fixed : ∀ element ∈ uniqueElements elements, FixedChannels element) (presentations : List MixPresentation) :
    (∀ primary additional, profileRules primary additional elements presentations = [] ↔
      (Profile.fromWire primary).isReserved = true ∨
        (∃ m ∈ presentations, ∃ selected, selectSequenceProfile elements [m] = .ok (selected, selected) ∧
          selected ≤ .fromWire primary) ∧
        (additional ≠ primary → (Profile.fromWire additional).isReserved = false →
          ∃ m ∈ presentations, Suffices elements (.fromWire additional) m)) ∧
    (presentations ≠ [] → ∀ selected, selectSequenceProfile elements presentations = .ok (selected, selected) →
      ∀ primary additional, ((Profile.fromWire primary).isReserved = false → selected ≤ .fromWire primary) →
        (additional ≠ primary → (Profile.fromWire additional).isReserved = false → selected ≤ .fromWire additional) →
        profileRules primary additional elements presentations = []) := by
  have rules (primary additional : UInt8) (known : (Profile.fromWire primary).isReserved = false) :
      profileRules primary additional elements presentations = [] ↔
        ((∃ m ∈ presentations, Suffices elements (.fromWire primary) m) ∧
          (additional ≠ primary → (Profile.fromWire additional).isReserved = false →
            ∃ m ∈ presentations, Suffices elements (.fromWire additional) m)) ∧
        ∃ floor, sequenceFloor elements = .ok floor ∧ floor ≤ .fromWire primary := by
    unfold profileRules
    rw [List.append_eq_nil_iff, complianceIff known, limitsIff fixed known]
  have silent (primary additional : UInt8) (reserved : (Profile.fromWire primary).isReserved = true) :
      profileRules primary additional elements presentations = [] := by
    simp [profileRules, complianceFindings, sequenceLimitFindings, reserved]
  refine ⟨fun primary additional => ?_, fun some' selected ok primary additional above above' => ?_⟩
  · cases known : (Profile.fromWire primary).isReserved with
    | true => simp [silent primary additional known]
    | false =>
      rw [rules primary additional known]
      simp only [selectedOne, Bool.false_eq_true, false_or]
      constructor
      · rintro ⟨⟨⟨m, among, enough⟩, additional'⟩, floored⟩
        exact ⟨⟨m, among, floored, enough⟩, additional'⟩
      · rintro ⟨⟨m, among, floored, enough⟩, additional'⟩
        exact ⟨⟨⟨m, among, enough⟩, additional'⟩, floored⟩
  · cases known : (Profile.fromWire primary).isReserved with
    | true => exact silent primary additional known
    | false =>
      obtain ⟨_, _, ⟨floor, floored, low⟩, each⟩ := selectSequenceProfileOk ok
      -- the first presentation will do, like every other
      obtain ⟨m, among⟩ := List.exists_mem_of_ne_nil presentations some'
      obtain ⟨needed, minimum, least⟩ := each m among
      have enough {profile : Profile} (above : selected ≤ profile) : ∃ m ∈ presentations, Suffices elements profile m :=
        ⟨m, among, needed, minimum, le_trans least above⟩
      exact (rules primary additional known).mpr ⟨⟨enough (above known), fun other known' => enough (above' other known')⟩,
        floor, floored, le_trans low (above known)⟩

def monoElement : AudioElement := ⟨7, 0, .sceneBased (.mono ⟨1, 1, [0]⟩), 0, [0], [], []⟩

def monoPresentation : MixPresentation := ⟨0, [], [], [⟨[⟨7, [], .stereo, .mode1 0 48000⟩], .mode1 1 48000, []⟩], []⟩

theorem profileRulesSelectionMono : (profileRules 0 1 [monoElement] [monoPresentation] = [] ↔
    (Profile.fromWire 0).isReserved = true ∨
      (∃ m ∈ [monoPresentation], ∃ selected, selectSequenceProfile [monoElement] [m] = .ok (selected, selected) ∧
        selected ≤ .fromWire 0) ∧
      ((1 : UInt8) ≠ 0 → (Profile.fromWire 1).isReserved = false →
        ∃ m ∈ [monoPresentation], Suffices [monoElement] (.fromWire 1) m)) ∧
    selectSequenceProfile [monoElement] [monoPresentation] = .ok (.simple, .simple) ∧
    profileRules 0 1 [monoElement] [monoPresentation] = [] := by
  have fixed : ∀ element ∈ uniqueElements [monoElement], FixedChannels element := by
    intro element among
    have inside := List.mem_toFinset.mp (Finset.mem_filter.mp among).1
    rw [List.mem_singleton.mp inside]
    exact ⟨1, rfl⟩
  have selected : selectSequenceProfile [monoElement] [monoPresentation] = .ok (.simple, .simple) := by decide +kernel
  obtain ⟨rules, behind⟩ := profileRulesSelection fixed [monoPresentation]
  exact ⟨rules 0 1, selected, behind (by simp) .simple selected 0 1 (fun _ => by decide) (fun _ _ => by decide)⟩

end Iamf.Wire
