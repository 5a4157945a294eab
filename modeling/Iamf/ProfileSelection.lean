import Iamf.Profile
import Mathlib.Algebra.BigOperators.Group.Finset.Basic
import Mathlib.Order.Bounds.Basic

/-! What a profile has to allow, once over the elements a sequence can name and once over the
references of a presentation; the selected profile is the least that does. -/
namespace Iamf.Wire
open TapeCodec

def FixedChannels (element : AudioElement) : Prop := ∃ count, elementChannelCount element = .ok count

def channels (element : AudioElement) : Nat :=
  match elementChannelCount element with
  | .ok count => count
  | .error _ => 0

def elementIds (elements : List AudioElement) : Finset UInt32 := (elements.map (·.audioElementId)).toFinset

def uniqueElements (elements : List AudioElement) : Finset AudioElement :=
  elements.toFinset.filter fun element => elementById elements element.audioElementId = some element

def resolved (elements : List AudioElement) (presentation : MixPresentation) : List AudioElement :=
  presentation.references.filterMap (elementById elements)

structure SequenceCeilings (elements : List AudioElement) : Prop where
  count : (elementIds elements).card ≤ 28
  fixed : ∀ element ∈ uniqueElements elements, FixedChannels element
  channels : (uniqueElements elements).sum channels ≤ 28

structure PresentationCeilings (elements : List AudioElement) (presentation : MixPresentation) : Prop where
  oneSubMix : presentation.subMixes.length = 1
  headphones : ∀ subMix ∈ presentation.subMixes, ∀ reference ∈ subMix.elements,
    reference.renderingConfig.headphonesRenderingMode.isReserved = false
  resolves : ∀ id ∈ presentation.references, ∃ element, elementById elements id = some element
  count : presentation.references.length ≤ 28
  channels : ((resolved elements presentation).map channels).sum ≤ 28

def AllowsElements (unique : Finset AudioElement) : Profile → Prop
  | .simple => (∀ element ∈ unique, isExpandedFirstLayer element = false) ∧ unique.card ≤ 1
  | .base => (∀ element ∈ unique, isExpandedFirstLayer element = false) ∧ unique.card ≤ 2 ∧
      (unique.filter (isSceneBased ·)).card ≤ 1 ∧ (unique.filter (isMultiLayer ·)).card ≤ 1
  | .baseEnhanced => True
  | .reserved _ => False

def AllowsReferences (references : List AudioElement) : Profile → Prop
  | .simple => references.length ≤ 1 ∧ (references.map channels).sum ≤ 16
  | .base => references.length ≤ 2 ∧ (references.map channels).sum ≤ 18 ∧
      references.countP isSceneBased ≤ 1 ∧ references.countP isMultiLayer ≤ 1
  | .baseEnhanced => True
  | .reserved _ => False

def Permits (elements : List AudioElement) (presentations : List MixPresentation) (profile : Profile) : Prop :=
  AllowsElements (uniqueElements elements) profile ∧
    ∀ presentation ∈ presentations, AllowsReferences (resolved elements presentation) profile

theorem channelsOf {element : AudioElement} {count : Nat} (ok : elementChannelCount element = .ok count) :
    channels element = count := by
  simp only [channels, ok]

theorem elementByIdAppend (xs ys : List AudioElement) (id : UInt32) :
    elementById (xs ++ ys) id = (elementById xs id).or (elementById ys id) := List.find?_append

theorem elementByIdOne (x : AudioElement) (id : UInt32) :
    elementById [x] id = if x.audioElementId = id then some x else none := by
  by_cases same : x.audioElementId = id <;> simp [elementById, same]

theorem elementByIdIs {elements : List AudioElement} {id : UInt32} {element : AudioElement}
    (found : elementById elements id = some element) : element.audioElementId = id := by
  simpa using List.find?_some found

theorem elementByIdNone {elements : List AudioElement} {id : UInt32} :
    elementById elements id = none ↔ ∀ element ∈ elements, element.audioElementId ≠ id := by
  simp [elementById]

theorem uniqueSnoc (xs : List AudioElement) (x : AudioElement) :
    uniqueById (xs ++ [x]) = addUnique (uniqueById xs) x := by
  rw [uniqueById, List.foldl_append]
  rfl

theorem uniqueByIdSpec (elements : List AudioElement) :
    (∀ element, element ∈ uniqueById elements ↔ elementById elements element.audioElementId = some element) ∧
      ((uniqueById elements).map (·.audioElementId)).Nodup := by
  induction elements using List.reverseRecOn with
  | nil => exact ⟨by simp [uniqueById, elementById], List.nodup_nil⟩
  | append_singleton xs x ih =>
    obtain ⟨members, apart⟩ := ih
    rw [uniqueSnoc]
    unfold addUnique
    cases known : elementById xs x.audioElementId with
    | some first =>
      have same := elementByIdIs known
      have seen : (uniqueById xs).any (fun seen => seen.audioElementId == x.audioElementId) = true :=
        List.any_eq_true.mpr ⟨first, (members first).mpr (by rw [same, known]), by simp [same]⟩
      rw [if_pos seen]
      refine ⟨fun element => ?_, apart⟩
      rw [members, elementByIdAppend, elementByIdOne]
      cases found : elementById xs element.audioElementId with
      | some other => simp
      | none =>
        have other : x.audioElementId ≠ element.audioElementId := by
          intro equal
          rw [equal, found] at known
          cases known
        simp [other]
    | none =>
      have unseen : (uniqueById xs).any (fun seen => seen.audioElementId == x.audioElementId) = false := by
        rw [List.any_eq_false]
        intro seen among
        have found := (members seen).mp among
        intro equal
        rw [eq_of_beq equal, known] at found
        cases found
      rw [unseen, if_neg Bool.false_ne_true]
      constructor
      · intro element
        rw [List.mem_append, List.mem_singleton, members, elementByIdAppend, elementByIdOne]
        cases found : elementById xs element.audioElementId with
        | some other =>
          simp only [Option.some_or]
          constructor
          · rintro (here | rfl)
            · exact here
            · rw [known] at found
              cases found
          · exact .inl
        | none =>
          simp only [reduceCtorEq, false_or, Option.none_or]
          constructor
          · rintro rfl
            simp
          · intro last
            split_ifs at last with equal
            exact (Option.some.inj last).symm
      · rw [List.map_append, List.nodup_append]
        refine ⟨apart, by simp, ?_⟩
        intro id among other last equal
        obtain ⟨seen, member, rfl⟩ := List.mem_map.mp among
        simp only [List.map_cons, List.map_nil, List.mem_singleton] at last
        have found := (members seen).mp member
        rw [equal, last, known] at found
        cases found

theorem uniqueNodup (elements : List AudioElement) : (uniqueById elements).Nodup :=
  (uniqueByIdSpec elements).2.of_map _

theorem uniqueToFinset (elements : List AudioElement) : (uniqueById elements).toFinset = uniqueElements elements := by
  ext element
  rw [List.mem_toFinset, (uniqueByIdSpec elements).1, uniqueElements, Finset.mem_filter, List.mem_toFinset]
  constructor
  · intro found
    exact ⟨List.mem_of_find?_eq_some found, found⟩
  · exact And.right

theorem uniqueLength (elements : List AudioElement) : (uniqueById elements).length = (uniqueElements elements).card := by
  rw [← uniqueToFinset, List.toFinset_card_of_nodup (uniqueNodup elements)]

theorem uniqueIds (elements : List AudioElement) : (uniqueById elements).length = (elementIds elements).card := by
  have ids : ((uniqueById elements).map (·.audioElementId)).toFinset = elementIds elements := by
    ext id
    simp only [elementIds, List.mem_toFinset, List.mem_map]
    constructor
    · rintro ⟨element, among, rfl⟩
      exact ⟨element, List.mem_of_find?_eq_some (((uniqueByIdSpec elements).1 element).mp among), rfl⟩
    · rintro ⟨element, among, rfl⟩
      cases found : elementById elements element.audioElementId with
      | none => exact absurd rfl (elementByIdNone.mp found element among)
      | some first =>
        have same := elementByIdIs found
        exact ⟨first, ((uniqueByIdSpec elements).1 first).mpr (by rw [same, found]), same⟩
  rw [← ids, List.toFinset_card_of_nodup (uniqueByIdSpec elements).2, List.length_map]

theorem uniqueCount (elements : List AudioElement) (p : AudioElement → Bool) :
    (uniqueById elements).countP p = ((uniqueElements elements).filter (p ·)).card := by
  rw [← uniqueToFinset, ← List.toFinset_filter, List.toFinset_card_of_nodup ((uniqueNodup elements).filter p),
    List.countP_eq_length_filter]

theorem uniqueSum (elements : List AudioElement) :
    ((uniqueById elements).map channels).sum = (uniqueElements elements).sum channels := by
  rw [← uniqueToFinset, List.sum_toFinset channels (uniqueNodup elements)]

theorem checkElementCountOk {count : Nat} : checkElementCount count = .ok () ↔ count ≤ 28 := by
  simp [checkElementCount, baseEnhancedMaxAudioElements]

theorem checkChannelCountOk {count : Nat} : checkChannelCount count = .ok () ↔ count ≤ 28 := by
  simp [checkChannelCount, baseEnhancedMaxChannels]

theorem totalChannelsOk {elements : List AudioElement} {start total : Nat} (small : start ≤ u32Max) :
    elements.foldlM addChannels start = .ok total ↔
      (∀ element ∈ elements, FixedChannels element) ∧ total = start + (elements.map channels).sum ∧ total ≤ u32Max := by
  induction elements generalizing start with
  | nil =>
    constructor
    · intro ok
      cases ok
      exact ⟨by simp, rfl, small⟩
    · rintro ⟨_, rfl, _⟩
      rfl
  | cons element elements ih =>
    rw [List.foldlM_cons, List.map_cons, List.sum_cons, List.forall_mem_cons]
    constructor
    · intro ok
      obtain ⟨next, added, others⟩ := exceptBindOk ok
      unfold addChannels at added
      obtain ⟨count, counted, added⟩ := exceptBindOk added
      split_ifs at added with fits
      cases added
      obtain ⟨fixed, rfl, inside⟩ := (ih fits).mp others
      rw [channelsOf counted, ← Nat.add_assoc]
      exact ⟨⟨⟨count, counted⟩, fixed⟩, rfl, inside⟩
    · rintro ⟨⟨⟨count, counted⟩, fixed⟩, same, inside⟩
      rw [channelsOf counted, ← Nat.add_assoc] at same
      have fits : start + count ≤ u32Max := by omega
      have added : addChannels start element = .ok (start + count) := by
        rw [addChannels, exceptBindOf _ counted, if_pos fits]
      rw [exceptBindOf _ added]
      exact (ih fits).mpr ⟨fixed, same, inside⟩

theorem presentationFloorOk {elements : List AudioElement} {floor : Profile} :
    presentationFloor elements = .ok floor ↔ (∀ element ∈ elements, FixedChannels element) ∧ elements.length ≤ 28 ∧
      (elements.map channels).sum ≤ 28 ∧ floor = presentationTier elements (elements.map channels).sum := by
  unfold presentationFloor totalChannelCount
  constructor
  · intro ok
    obtain ⟨total, counted, ok⟩ := exceptBindOk ok
    obtain ⟨_, count, ok⟩ := exceptBindOk ok
    obtain ⟨_, channels, ok⟩ := exceptBindOk ok
    cases ok
    obtain ⟨fixed, rfl, _⟩ := (totalChannelsOk (Nat.zero_le _)).mp counted
    rw [Nat.zero_add] at channels ⊢
    exact ⟨fixed, checkElementCountOk.mp count, checkChannelCountOk.mp channels, rfl⟩
  · rintro ⟨fixed, count, channels, rfl⟩
    have inside : (elements.map Wire.channels).sum ≤ u32Max := by
      unfold u32Max
      omega
    rw [exceptBindOf _ ((totalChannelsOk (Nat.zero_le _)).mpr ⟨fixed, (Nat.zero_add _).symm, inside⟩),
      exceptBindOf _ (checkElementCountOk.mpr count), exceptBindOf _ (checkChannelCountOk.mpr channels)]

theorem sequenceFloorOk {elements : List AudioElement} {floor : Profile} :
    sequenceFloor elements = .ok floor ↔
      SequenceCeilings elements ∧ floor = sequenceCountFloor (uniqueById elements) := by
  unfold sequenceFloor totalChannelCount
  constructor
  · intro ok
    obtain ⟨_, count, ok⟩ := exceptBindOk ok
    obtain ⟨total, counted, ok⟩ := exceptBindOk ok
    obtain ⟨_, channels, ok⟩ := exceptBindOk ok
    cases ok
    obtain ⟨fixed, rfl, _⟩ := (totalChannelsOk (Nat.zero_le _)).mp counted
    refine ⟨⟨?_, fun element among => ?_, ?_⟩, rfl⟩
    · rw [← uniqueIds]
      exact checkElementCountOk.mp count
    · rw [← uniqueToFinset, List.mem_toFinset] at among
      exact fixed element among
    · rw [← uniqueSum, ← Nat.zero_add ((uniqueById elements).map Wire.channels).sum]
      exact checkChannelCountOk.mp channels
  · rintro ⟨⟨count, fixed, channels⟩, rfl⟩
    rw [← uniqueIds] at count
    rw [← uniqueSum] at channels
    have inside : ((uniqueById elements).map Wire.channels).sum ≤ u32Max := by
      unfold u32Max
      omega
    have known : ∀ element ∈ uniqueById elements, FixedChannels element := by
      intro element among
      exact fixed element (by rwa [← uniqueToFinset, List.mem_toFinset])
    rw [exceptBindOf _ (checkElementCountOk.mpr count),
      exceptBindOf _ ((totalChannelsOk (Nat.zero_le _)).mpr ⟨known, (Nat.zero_add _).symm, inside⟩),
      exceptBindOf _ (checkChannelCountOk.mpr channels)]

theorem anyExpanded {elements : List AudioElement} (plain : ∀ element ∈ elements, isExpandedFirstLayer element = false) :
    elements.any isExpandedFirstLayer = false := by
  rw [List.any_eq_false]
  intro element among
  rw [plain element among]
  exact Bool.false_ne_true

theorem presentationTierLe {references : List AudioElement} {profile : Profile} (known : profile.isReserved = false)
    (plain : profile = .baseEnhanced ∨ ∀ element ∈ references, isExpandedFirstLayer element = false) :
    presentationTier references (references.map channels).sum ≤ profile ↔ AllowsReferences references profile := by
  unfold presentationTier simpleMaxAudioElements simpleMaxChannels baseMaxAudioElements baseMaxChannels
  have scenes := List.countP_le_length (p := isSceneBased) (l := references)
  have multis := List.countP_le_length (p := isMultiLayer) (l := references)
  cases profile with
  | reserved raw => cases known
  | baseEnhanced =>
    refine iff_of_true ?_ trivial
    split_ifs <;> decide
  | simple =>
    rw [anyExpanded (plain.resolve_left (by decide)), if_neg Bool.false_ne_true]
    split_ifs with first second
    · exact iff_of_true (le_refl _) first
    · exact iff_of_false (by decide) first
    · exact iff_of_false (by decide) first
  | base =>
    rw [anyExpanded (plain.resolve_left (by decide)), if_neg Bool.false_ne_true]
    simp only [baseCombinationAllowed, Bool.and_eq_true, decide_eq_true_eq]
    split_ifs with first second
    · refine iff_of_true (by decide) ?_
      exact ⟨by omega, by omega, by omega, by omega⟩
    · exact iff_of_true (le_refl _) second
    · exact iff_of_false (by decide) second

theorem sequenceTierLe (elements : List AudioElement) {profile : Profile} (known : profile.isReserved = false) :
    sequenceCountFloor (uniqueById elements) ≤ profile ↔ AllowsElements (uniqueElements elements) profile := by
  have expanded : (uniqueById elements).any isExpandedFirstLayer = false ↔
      ∀ element ∈ uniqueElements elements, isExpandedFirstLayer element = false := by
    rw [List.any_eq_false]
    simp only [← uniqueToFinset, List.mem_toFinset, Bool.not_eq_true]
  have scenes := Finset.card_filter_le (uniqueElements elements) (isSceneBased ·)
  have multis := Finset.card_filter_le (uniqueElements elements) (isMultiLayer ·)
  unfold sequenceCountFloor simpleMaxAudioElements baseMaxAudioElements baseCombinationAllowed
  simp only [uniqueCount, uniqueLength, Bool.and_eq_true, decide_eq_true_eq]
  cases profile with
  | reserved raw => cases known
  | baseEnhanced =>
    refine iff_of_true ?_ trivial
    split_ifs <;> decide
  | simple =>
    unfold AllowsElements
    rw [← expanded]
    split_ifs with some' first second
    · exact iff_of_false (by decide) fun allows => by simp [some'] at allows
    · exact iff_of_true (le_refl _) ⟨by simpa using some', first⟩
    · exact iff_of_false (by decide) fun allows => first allows.2
    · exact iff_of_false (by decide) fun allows => first allows.2
  | base =>
    unfold AllowsElements
    rw [← expanded]
    split_ifs with some' first second
    · exact iff_of_false (by decide) fun allows => by simp [some'] at allows
    · refine iff_of_true (by decide) ⟨by simpa using some', ?_⟩
      exact ⟨by omega, by omega, by omega⟩
    · exact iff_of_true (le_refl _) ⟨by simpa using some', second⟩
    · exact iff_of_false (by decide) fun allows => second allows.2

theorem resolveReferencesOk {elements resolved : List AudioElement} {ids : List UInt32} :
    ids.mapM (resolveReference elements) = .ok resolved ↔
      (∀ id ∈ ids, ∃ element, elementById elements id = some element) ∧
        resolved = ids.filterMap (elementById elements) := by
  induction ids generalizing resolved with
  | nil =>
    constructor
    · intro ok
      cases ok
      exact ⟨by simp, rfl⟩
    · rintro ⟨_, rfl⟩
      rfl
  | cons id ids ih =>
    rw [List.mapM_cons, List.forall_mem_cons, List.filterMap_cons]
    constructor
    · intro ok
      obtain ⟨element, first, ok⟩ := exceptBindOk ok
      obtain ⟨rest, others, ok⟩ := exceptBindOk ok
      cases ok
      obtain ⟨each, rfl⟩ := ih.mp others
      unfold resolveReference at first
      cases found : elementById elements id with
      | none => rw [found] at first; cases first
      | some other =>
        rw [found] at first
        cases first
        exact ⟨⟨⟨_, rfl⟩, each⟩, rfl⟩
    · rintro ⟨⟨⟨element, found⟩, each⟩, rfl⟩
      have first : resolveReference elements id = .ok element := by simp only [resolveReference, found]
      rw [exceptBindOf _ first, exceptBindOf _ (ih.mpr ⟨each, rfl⟩), found]
      rfl

theorem resolvedLength {elements : List AudioElement} {ids : List UInt32}
    (each : ∀ id ∈ ids, ∃ element, elementById elements id = some element) :
    (ids.filterMap (elementById elements)).length = ids.length := by
  induction ids with
  | nil => rfl
  | cons id ids ih =>
    obtain ⟨⟨element, found⟩, others⟩ := List.forall_mem_cons.mp each
    rw [List.filterMap_cons, found]
    simp only [List.length_cons, ih others]

theorem resolvedUnique {elements : List AudioElement} {presentation : MixPresentation} {element : AudioElement}
    (among : element ∈ resolved elements presentation) : element ∈ uniqueElements elements := by
  obtain ⟨id, _, found⟩ := List.mem_filterMap.mp among
  rw [uniqueElements, Finset.mem_filter, List.mem_toFinset, elementByIdIs found]
  exact ⟨List.mem_of_find?_eq_some found, found⟩

theorem presentationProfileOk {elements : List AudioElement} {presentation : MixPresentation} {needed : Profile}
    (fixed : ∀ element ∈ uniqueElements elements, FixedChannels element) :
    presentationMinimumProfile presentation elements = .ok needed ↔ PresentationCeilings elements presentation ∧
      needed = presentationTier (resolved elements presentation) ((resolved elements presentation).map channels).sum := by
  have modes : (presentation.subMixes.flatMap (·.elements)).any (·.renderingConfig.headphonesRenderingMode.isReserved) =
      false ↔ ∀ subMix ∈ presentation.subMixes, ∀ reference ∈ subMix.elements,
        reference.renderingConfig.headphonesRenderingMode.isReserved = false := by
    simp only [List.any_eq_false, List.mem_flatMap, Bool.not_eq_true, forall_exists_index, and_imp]
    exact ⟨fun each s among r inside => each r s among inside, fun each r s among inside => each s among r inside⟩
  have known : ∀ element ∈ resolved elements presentation, FixedChannels element :=
    fun element among => fixed element (resolvedUnique among)
  unfold presentationMinimumProfile
  constructor
  · intro ok
    split_ifs at ok with count reserved
    obtain ⟨references, resolves, ok⟩ := exceptBindOk ok
    obtain ⟨each, rfl⟩ := resolveReferencesOk.mp resolves
    obtain ⟨_, few, sum, rfl⟩ := presentationFloorOk.mp ok
    rw [resolvedLength each] at few
    exact ⟨⟨not_not.mp count, modes.mp (by simpa using reserved), each, few, sum⟩, rfl⟩
  · rintro ⟨⟨oneSubMix, headphones, resolves, count, sum⟩, rfl⟩
    rw [if_neg (not_not.mpr oneSubMix), if_neg (by rw [modes.mpr headphones]; exact Bool.false_ne_true),
      exceptBindOf _ (resolveReferencesOk.mpr ⟨resolves, rfl⟩)]
    exact presentationFloorOk.mpr ⟨known, by rwa [resolvedLength resolves], sum, rfl⟩

theorem raiseForOk {elements : List AudioElement} {presentations : List MixPresentation} (floor : Profile)
    (each : ∀ m ∈ presentations, ∃ needed, presentationMinimumProfile m elements = .ok needed) :
    ∃ profile, presentations.foldlM (raiseFor elements) floor = .ok profile := by
  induction presentations generalizing floor with
  | nil => exact ⟨floor, rfl⟩
  | cons presentation presentations ih =>
    obtain ⟨⟨needed, minimum⟩, others⟩ := List.forall_mem_cons.mp each
    obtain ⟨profile, raised⟩ := ih (max floor needed) others
    have first : raiseFor elements floor presentation = .ok (max floor needed) := by
      rw [raiseFor, exceptBindOf _ minimum]
    exact ⟨profile, by rw [List.foldlM_cons, exceptBindOf _ first, raised]⟩

/-- The largest profile's limits, for the sequence and each of its presentations. -/
def Ceilings (elements : List AudioElement) (presentations : List MixPresentation) : Prop :=
  SequenceCeilings elements ∧ ∀ presentation ∈ presentations, PresentationCeilings elements presentation

theorem selectOk {elements : List AudioElement} {presentations : List MixPresentation} :
    (∃ profile, selectSequenceProfile elements presentations = .ok (profile, profile)) ↔
      Ceilings elements presentations := by
  unfold selectSequenceProfile
  constructor
  · rintro ⟨profile, ok⟩
    obtain ⟨floor, floored, ok⟩ := exceptBindOk ok
    obtain ⟨raised, steps, _⟩ := exceptBindOk ok
    obtain ⟨ceilings, _⟩ := sequenceFloorOk.mp floored
    obtain ⟨_, each⟩ := (raiseForLe steps raised).mp (le_refl _)
    refine ⟨ceilings, fun presentation among => ?_⟩
    obtain ⟨needed, minimum, _⟩ := each presentation among
    exact ((presentationProfileOk ceilings.fixed).mp minimum).1
  · rintro ⟨ceilings, each⟩
    have minima : ∀ m ∈ presentations, ∃ needed, presentationMinimumProfile m elements = .ok needed :=
      fun presentation among => ⟨_, (presentationProfileOk ceilings.fixed).mpr ⟨each presentation among, rfl⟩⟩
    obtain ⟨profile, raised⟩ := raiseForOk (sequenceCountFloor (uniqueById elements)) minima
    exact ⟨profile, by rw [exceptBindOf _ (sequenceFloorOk.mpr ⟨ceilings, rfl⟩), exceptBindOf _ raised]⟩

theorem selectedLe {elements : List AudioElement} {presentations : List MixPresentation} {profile additional : Profile}
    (ok : selectSequenceProfile elements presentations = .ok (profile, additional)) {other : Profile}
    (known : other.isReserved = false) : profile ≤ other ↔ Permits elements presentations other := by
  unfold selectSequenceProfile at ok
  obtain ⟨floor, floored, ok⟩ := exceptBindOk ok
  obtain ⟨raised, steps, ok⟩ := exceptBindOk ok
  cases ok
  obtain ⟨ceilings, rfl⟩ := sequenceFloorOk.mp floored
  rw [raiseForLe steps, sequenceTierLe elements known]
  refine and_congr_right fun allowed => ?_
  have plain : other = .baseEnhanced ∨ ∀ element ∈ uniqueElements elements, isExpandedFirstLayer element = false := by
    cases other with
    | reserved raw => cases known
    | baseEnhanced => exact .inl rfl
    | simple => exact .inr allowed.1
    | base => exact .inr allowed.1
  have each (presentation : MixPresentation) : presentationTier (resolved elements presentation)
      ((resolved elements presentation).map channels).sum ≤ other ↔
        AllowsReferences (resolved elements presentation) other :=
    presentationTierLe known (plain.imp_right fun none element among => none element (resolvedUnique among))
  constructor
  · intro suffices' presentation among
    obtain ⟨needed, minimum, below⟩ := suffices' presentation among
    rw [((presentationProfileOk ceilings.fixed).mp minimum).2] at below
    exact (each presentation).mp below
  · intro allows presentation among
    obtain ⟨_, all⟩ := (raiseForLe steps profile).mp (le_refl _)
    obtain ⟨needed, minimum, _⟩ := all presentation among
    refine ⟨needed, minimum, ?_⟩
    rw [((presentationProfileOk ceilings.fixed).mp minimum).2]
    exact (each presentation).mpr (allows presentation among)

def RefersToAll (presentation : MixPresentation) (elements : List AudioElement) : Prop :=
  presentation.references.Perm (elements.map (·.audioElementId))

theorem resolvedAll {elements : List AudioElement} {presentation : MixPresentation}
    (apart : (elements.map (·.audioElementId)).Nodup) (all : RefersToAll presentation elements) :
    (resolved elements presentation).Perm elements := by
  have self (es : List AudioElement) (among : ∀ e ∈ es, elementById elements e.audioElementId = some e) :
      (es.map (·.audioElementId)).filterMap (elementById elements) = es := by
    induction es with
    | nil => rfl
    | cons e es ih =>
      obtain ⟨first, others⟩ := List.forall_mem_cons.mp among
      rw [List.map_cons, List.filterMap_cons, first, ih others]
  have found : ∀ e ∈ elements, elementById elements e.audioElementId = some e := by
    intro e among
    cases lookup : elementById elements e.audioElementId with
    | none => exact absurd rfl (elementByIdNone.mp lookup e among)
    | some first =>
      have inside := List.mem_of_find?_eq_some lookup
      rw [List.inj_on_of_nodup_map apart inside among (elementByIdIs lookup)]
  have lists := all.filterMap (elementById elements)
  rwa [self elements found] at lists

theorem presentationFloorPerm {xs ys : List AudioElement} (perm : xs.Perm ys) {floor : Profile}
    (ok : presentationFloor xs = .ok floor) : presentationFloor ys = .ok floor := by
  obtain ⟨fixed, few, sum, rfl⟩ := presentationFloorOk.mp ok
  have total : (xs.map channels).sum = (ys.map channels).sum := (perm.map channels).sum_eq
  refine presentationFloorOk.mpr ⟨fun e among => fixed e (perm.mem_iff.mpr among), perm.length_eq ▸ few, total ▸ sum, ?_⟩
  unfold presentationTier baseCombinationAllowed
  rw [perm.any_eq, perm.length_eq, total, perm.countP_eq isSceneBased, perm.countP_eq isMultiLayer]

theorem selectMinimumOk {elements : List AudioElement} {presentation : MixPresentation}
    (apart : (elements.map (·.audioElementId)).Nodup) (oneSubMix : presentation.subMixes.length = 1)
    (headphones : ∀ subMix ∈ presentation.subMixes, ∀ reference ∈ subMix.elements,
      reference.renderingConfig.headphonesRenderingMode.isReserved = false)
    (all : RefersToAll presentation elements) (selected : Profile × Profile) :
    selectMinimumProfile elements = .ok selected ↔ selectSequenceProfile elements [presentation] = .ok selected := by
  have perm := resolvedAll apart all
  have resolves : ∀ id ∈ presentation.references, ∃ e, elementById elements id = some e := by
    intro id among
    cases lookup : elementById elements id with
    | some e => exact ⟨e, rfl⟩
    | none =>
      obtain ⟨e, inside, rfl⟩ := List.mem_map.mp (all.mem_iff.mp among)
      exact absurd rfl (elementByIdNone.mp lookup e inside)
  unfold selectMinimumProfile selectSequenceProfile
  constructor
  · intro ok
    obtain ⟨one, first, ok⟩ := exceptBindOk ok
    obtain ⟨floor, floored, ok⟩ := exceptBindOk ok
    cases ok
    obtain ⟨_, few, sum, rfl⟩ := presentationFloorOk.mp (presentationFloorPerm perm.symm first)
    obtain ⟨ceilings, _⟩ := sequenceFloorOk.mp floored
    rw [resolved, resolvedLength resolves] at few
    have minimum := (presentationProfileOk ceilings.fixed).mpr ⟨⟨oneSubMix, headphones, resolves, few, sum⟩, rfl⟩
    rw [exceptBindOf _ floored, List.foldlM_cons, raiseFor, exceptBindOf _ minimum, max_comm]
    rfl
  · intro ok
    obtain ⟨floor, floored, ok⟩ := exceptBindOk ok
    obtain ⟨profile, raised, ok⟩ := exceptBindOk ok
    cases ok
    rw [List.foldlM_cons] at raised
    obtain ⟨next, step, done⟩ := exceptBindOk raised
    cases done
    unfold raiseFor at step
    obtain ⟨needed, minimum, step⟩ := exceptBindOk step
    cases step
    obtain ⟨ceilings, _⟩ := sequenceFloorOk.mp floored
    obtain ⟨⟨_, _, _, few, sum⟩, rfl⟩ := (presentationProfileOk ceilings.fixed).mp minimum
    have fixed : ∀ e ∈ resolved elements presentation, FixedChannels e :=
      fun e among => ceilings.fixed e (resolvedUnique among)
    have first := presentationFloorPerm perm
      (presentationFloorOk.mpr ⟨fixed, by rwa [resolved, resolvedLength resolves], sum, rfl⟩)
    rw [exceptBindOf _ first, exceptBindOf _ floored, max_comm]

theorem selectSequenceProfileLeast (elements : List AudioElement) (presentations : List MixPresentation) :
    ((∃ profile, selectSequenceProfile elements presentations = .ok (profile, profile)) ↔
      Ceilings elements presentations) ∧
    (∀ profile additional, selectSequenceProfile elements presentations = .ok (profile, additional) →
      additional = profile ∧ IsLeast {other | Permits elements presentations other} profile) ∧
    ∀ presentation, (elements.map (·.audioElementId)).Nodup → presentation.subMixes.length = 1 →
      (∀ subMix ∈ presentation.subMixes, ∀ reference ∈ subMix.elements,
        reference.renderingConfig.headphonesRenderingMode.isReserved = false) →
      RefersToAll presentation elements → ∀ selected,
        (selectMinimumProfile elements = .ok selected ↔
          selectSequenceProfile elements [presentation] = .ok selected) := by
  refine ⟨selectOk, fun profile additional ok => ?_, fun presentation apart oneSubMix headphones all selected =>
    selectMinimumOk apart oneSubMix headphones all selected⟩
  · obtain ⟨same, known, _⟩ := selectSequenceProfileOk ok
    refine ⟨same, (selectedLe ok known).mp (le_refl _), fun other permits => ?_⟩
    have plain : other.isReserved = false := by
      cases other with
      | reserved raw => exact permits.1.elim
      | _ => rfl
    exact (selectedLe ok plain).mpr permits

theorem selectSequenceProfileLeastMono :
    IsLeast {other | Permits [⟨7, 0, .sceneBased (.mono ⟨1, 1, [0]⟩), 0, [0], [], []⟩]
      [⟨0, [], [], [⟨[⟨7, [], .stereo, .mode1 0 48000⟩], .mode1 1 48000, []⟩], []⟩] other} .simple ∧
    selectMinimumProfile [⟨7, 0, .sceneBased (.mono ⟨1, 1, [0]⟩), 0, [0], [], []⟩] = .ok (.simple, .simple) := by
  obtain ⟨_, least, alone⟩ := selectSequenceProfileLeast
    [⟨7, 0, .sceneBased (.mono ⟨1, 1, [0]⟩), 0, [0], [], []⟩]
    [⟨0, [], [], [⟨[⟨7, [], .stereo, .mode1 0 48000⟩], .mode1 1 48000, []⟩], []⟩]
  have selected : selectSequenceProfile [⟨7, 0, .sceneBased (.mono ⟨1, 1, [0]⟩), 0, [0], [], []⟩]
      [⟨0, [], [], [⟨[⟨7, [], .stereo, .mode1 0 48000⟩], .mode1 1 48000, []⟩], []⟩] = .ok (.simple, .simple) := by
    decide +kernel
  refine ⟨(least _ _ selected).2, (alone ⟨0, [], [], [⟨[⟨7, [], .stereo, .mode1 0 48000⟩], .mode1 1 48000, []⟩], []⟩
    (by simp) rfl ?_ (List.Perm.refl _) _).mpr selected⟩
  intro subMix among reference inside
  simp only [List.mem_singleton] at among
  subst among
  simp only [List.mem_singleton] at inside
  subst inside
  rfl

end Iamf.Wire
