import Iamf.MixPresentation
import Mathlib.Order.Lattice

/-! IA profiles: what a presentation or a whole sequence needs at least, and whether the
profiles in its header promise enough. -/
namespace Iamf.Wire
open TapeCodec

inductive Profile where
  | simple
  | base
  | baseEnhanced
  | reserved (raw : UInt8)
  deriving DecidableEq, Repr

namespace Profile

def fromWire (value : UInt8) : Profile :=
  match value with
  | 0 => .simple
  | 1 => .base
  | 2 => .baseEnhanced
  | other => .reserved other

def toWire : Profile → UInt8
  | .simple => 0
  | .base => 1
  | .baseEnhanced => 2
  | .reserved raw => raw

def rank : Profile → Nat
  | .simple => 0
  | .base => 1
  | .baseEnhanced => 2
  | .reserved raw => 3 + raw.toNat

theorem rankInjective : Function.Injective rank := by
  intro a b same
  cases a <;> cases b <;> simp only [rank] at same <;> first | rfl | omega | skip
  exact congrArg Profile.reserved (UInt8.toNat_inj.mp (by omega))

instance : LinearOrder Profile := LinearOrder.lift' rank rankInjective

def isReserved : Profile → Bool
  | .reserved _ => true
  | _ => false

theorem fromWireToWire {p : Profile} (known : p.isReserved = false) : fromWire p.toWire = p := by
  cases p with
  | reserved raw => cases known
  | _ => rfl

theorem toWireKnown {p : Profile} (known : p.isReserved = false) : p.toWire < 3 := by
  cases p with
  | reserved raw => cases known
  | _ => decide

theorem maxKnown {a b : Profile} (left : a.isReserved = false) (right : b.isReserved = false) :
    (max a b).isReserved = false := by
  rcases max_choice a b with same | same
  · rwa [same]
  · rwa [same]

end Profile

def simpleMaxAudioElements : Nat := 1
def baseMaxAudioElements : Nat := 2
def baseEnhancedMaxAudioElements : Nat := 28
def simpleMaxChannels : Nat := 16
def baseMaxChannels : Nat := 18
def baseEnhancedMaxChannels : Nat := 28

def unsupportedChannels : Error := ⟨.unsupportedLayout, .field "loudspeaker_layout"⟩

def elementChannelCount (element : AudioElement) : Except Error Nat :=
  match element.audioElementType with
  | .channelBased config =>
    match config.layers.getLast? with
    | none => .error unsupportedChannels
    | some layer =>
      match layer.loudspeakerLayout.channelCount with
      | none => .error unsupportedChannels
      | some count => .ok count
  | .sceneBased config =>
    match config.outputChannelCount with
    | none => .error unsupportedChannels
    | some count => .ok count.toNat
  | .reserved .. => .error unsupportedChannels

def addChannels (total : Nat) (element : AudioElement) : Except Error Nat := do
  let count ← elementChannelCount element
  if total + count ≤ u32Max then .ok (total + count)
  else .error ⟨.channelCountExceedsProfile, .field "loudspeaker_layout"⟩

def totalChannelCount (elements : List AudioElement) : Except Error Nat := elements.foldlM addChannels 0

def isExpandedFirstLayer (element : AudioElement) : Bool :=
  match element.audioElementType with
  | .channelBased config => config.layers.head?.any fun layer => layer.loudspeakerLayout.expandedLayout.isSome
  | _ => false

def isSceneBased (element : AudioElement) : Bool := element.audioElementType.sceneBasedConfig.isSome

def isMultiLayer (element : AudioElement) : Bool :=
  match element.audioElementType with
  | .channelBased config => config.layers.length > 1
  | _ => false

def baseCombinationAllowed (elements : List AudioElement) : Bool :=
  elements.countP isSceneBased ≤ 1 && elements.countP isMultiLayer ≤ 1

def addUnique (unique : List AudioElement) (element : AudioElement) : List AudioElement :=
  if unique.any fun seen => seen.audioElementId == element.audioElementId then unique else unique ++ [element]

def uniqueById (elements : List AudioElement) : List AudioElement := elements.foldl addUnique []

def checkElementCount (count : Nat) : Except Error Unit :=
  if count > baseEnhancedMaxAudioElements then .error ⟨.elementCountExceedsProfile, .field "num_audio_elements"⟩
  else .ok ()

def checkChannelCount (channels : Nat) : Except Error Unit :=
  if channels > baseEnhancedMaxChannels then .error ⟨.channelCountExceedsProfile, .field "loudspeaker_layout"⟩
  else .ok ()

def presentationTier (elements : List AudioElement) (channelCount : Nat) : Profile :=
  if elements.any isExpandedFirstLayer then .baseEnhanced
  else if elements.length ≤ simpleMaxAudioElements ∧ channelCount ≤ simpleMaxChannels then .simple
  else if elements.length ≤ baseMaxAudioElements ∧ channelCount ≤ baseMaxChannels ∧
      baseCombinationAllowed elements then .base
  else .baseEnhanced

def presentationFloor (elements : List AudioElement) : Except Error Profile := do
  let channelCount ← totalChannelCount elements
  checkElementCount elements.length
  checkChannelCount channelCount
  .ok (presentationTier elements channelCount)

def sequenceCountFloor (unique : List AudioElement) : Profile :=
  if unique.any isExpandedFirstLayer then .baseEnhanced
  else if unique.length ≤ simpleMaxAudioElements then .simple
  else if unique.length ≤ baseMaxAudioElements ∧ baseCombinationAllowed unique then .base
  else .baseEnhanced

def sequenceFloor (elements : List AudioElement) : Except Error Profile := do
  checkElementCount (uniqueById elements).length
  let channelCount ← totalChannelCount (uniqueById elements)
  checkChannelCount channelCount
  .ok (sequenceCountFloor (uniqueById elements))

def elementById (elements : List AudioElement) (id : UInt32) : Option AudioElement :=
  elements.find? fun element => element.audioElementId == id

def resolveReference (elements : List AudioElement) (id : UInt32) : Except Error AudioElement :=
  match elementById elements id with
  | some element => .ok element
  | none => .error ⟨.invalidDescriptorReference, .field "audio_element_id"⟩

def HeadphonesRenderingMode.isReserved : HeadphonesRenderingMode → Bool
  | .reserved _ => true
  | _ => false

def presentationMinimumProfile (presentation : MixPresentation) (elements : List AudioElement) :
    Except Error Profile :=
  if presentation.subMixes.length ≠ 1 then .error ⟨.subMixCountNotOne, .field "num_sub_mixes"⟩
  else if (presentation.subMixes.flatMap (·.elements)).any (·.renderingConfig.headphonesRenderingMode.isReserved) then
    .error ⟨.reservedHeadphonesRenderingMode, .field "headphones_rendering_mode"⟩
  else do
    let resolved ← presentation.references.mapM (resolveReference elements)
    presentationFloor resolved

def selectMinimumProfile (elements : List AudioElement) : Except Error (Profile × Profile) := do
  let presentation ← presentationFloor elements
  let sequence ← sequenceFloor elements
  .ok (max presentation sequence, max presentation sequence)

def raiseFor (elements : List AudioElement) (profile : Profile) (presentation : MixPresentation) :
    Except Error Profile := do
  let needed ← presentationMinimumProfile presentation elements
  .ok (max profile needed)

def selectSequenceProfile (elements : List AudioElement) (presentations : List MixPresentation) :
    Except Error (Profile × Profile) := do
  let floor ← sequenceFloor elements
  let profile ← presentations.foldlM (raiseFor elements) floor
  .ok (profile, profile)

def compliesWith (elements : List AudioElement) (presentations : List MixPresentation) (profile : Profile) : Bool :=
  presentations.any fun presentation =>
    match presentationMinimumProfile presentation elements with
    | .ok needed => needed ≤ profile
    | .error _ => false

def complianceFindings (primaryProfile additionalProfile : UInt8) (elements : List AudioElement)
    (presentations : List MixPresentation) : List Finding :=
  let primary := Profile.fromWire primaryProfile
  let additional := Profile.fromWire additionalProfile
  if primary.isReserved then []
  else
    findingIf (!compliesWith elements presentations primary) (.at "primary_profile"
      "no Mix Presentation complies with primary_profile {} (IAMF v1.1.0 index.bs:1929)"
      [.number primaryProfile.toNat]) ++
    findingIf (additionalProfile != primaryProfile && !additional.isReserved &&
        !compliesWith elements presentations additional) (.at "additional_profile"
      "no Mix Presentation complies with additional_profile {} (IAMF v1.1.0 index.bs:596)"
      [.number additionalProfile.toNat])

def aboveProfile (unique : Nat) (needed primary : Profile) (primaryProfile : UInt8) : List Finding :=
  findingIf (needed > primary) (.at "primary_profile"
    "the IA Sequence's {} unique Audio Elements need profile {} or higher, above primary_profile {} (IAMF v1.0.0-errata index.bs:1852-1873, adopted by v1.1.0 index.bs:1936, :1943)"
    [.number unique, .number needed.toWire.toNat, .number primaryProfile.toNat])

def sequenceLimitFindings (primaryProfile : UInt8) (elements : List AudioElement) : List Finding :=
  let primary := Profile.fromWire primaryProfile
  let unique := uniqueById elements
  if primary.isReserved then []
  else
    match sequenceFloor elements with
    | .ok needed => aboveProfile unique.length needed primary primaryProfile
    | .error error =>
      match error.kind with
      | .unsupportedLayout => aboveProfile unique.length (sequenceCountFloor unique) primary primaryProfile
      | .elementCountExceedsProfile | .channelCountExceedsProfile => [.at "primary_profile"
          "the IA Sequence's {} unique Audio Elements exceed every profile's sequence-wide limit (IAMF v1.1.0 index.bs:1953)"
          [.number unique.length]]
      | _ => []

theorem presentationFloorKnown {elements : List AudioElement} {p : Profile}
    (ok : presentationFloor elements = .ok p) : p.isReserved = false := by
  unfold presentationFloor at ok
  obtain ⟨channels, _, ok⟩ := exceptBindOk ok
  obtain ⟨_, _, ok⟩ := exceptBindOk ok
  obtain ⟨_, _, ok⟩ := exceptBindOk ok
  cases ok
  unfold presentationTier
  split_ifs <;> rfl

theorem presentationProfileKnown {presentation : MixPresentation} {elements : List AudioElement} {p : Profile}
    (ok : presentationMinimumProfile presentation elements = .ok p) : p.isReserved = false := by
  unfold presentationMinimumProfile at ok
  split_ifs at ok
  obtain ⟨resolved, _, ok⟩ := exceptBindOk ok
  exact presentationFloorKnown ok

theorem sequenceFloorKnown {elements : List AudioElement} {p : Profile}
    (ok : sequenceFloor elements = .ok p) : p.isReserved = false := by
  unfold sequenceFloor at ok
  obtain ⟨_, _, ok⟩ := exceptBindOk ok
  obtain ⟨_, _, ok⟩ := exceptBindOk ok
  obtain ⟨_, _, ok⟩ := exceptBindOk ok
  cases ok
  unfold sequenceCountFloor
  split_ifs <;> rfl

def Suffices (elements : List AudioElement) (profile : Profile) (presentation : MixPresentation) : Prop :=
  ∃ needed, presentationMinimumProfile presentation elements = .ok needed ∧ needed ≤ profile

theorem raiseForLe {elements : List AudioElement} {presentations : List MixPresentation} {floor profile : Profile}
    (ok : presentations.foldlM (raiseFor elements) floor = .ok profile) (above : Profile) :
    profile ≤ above ↔ floor ≤ above ∧ ∀ m ∈ presentations, Suffices elements above m := by
  induction presentations generalizing floor with
  | nil =>
    cases ok
    simp
  | cons presentation presentations ih =>
    rw [List.foldlM_cons] at ok
    obtain ⟨raised, first, others⟩ := exceptBindOk ok
    unfold raiseFor at first
    obtain ⟨needed, minimum, same⟩ := exceptBindOk first
    cases same
    rw [ih others, max_le_iff, List.forall_mem_cons]
    constructor
    · rintro ⟨⟨low, one⟩, each⟩
      exact ⟨low, ⟨needed, minimum, one⟩, each⟩
    · rintro ⟨low, ⟨other, again, one⟩, each⟩
      cases minimum.symm.trans again
      exact ⟨⟨low, one⟩, each⟩

theorem raiseForKnown {elements : List AudioElement} {presentations : List MixPresentation} {floor profile : Profile}
    (known : floor.isReserved = false) (ok : presentations.foldlM (raiseFor elements) floor = .ok profile) :
    profile.isReserved = false := by
  induction presentations generalizing floor with
  | nil =>
    cases ok
    exact known
  | cons presentation presentations ih =>
    rw [List.foldlM_cons] at ok
    obtain ⟨raised, first, others⟩ := exceptBindOk ok
    unfold raiseFor at first
    obtain ⟨needed, minimum, same⟩ := exceptBindOk first
    cases same
    exact ih (Profile.maxKnown known (presentationProfileKnown minimum)) others

theorem selectSequenceProfileOk {elements : List AudioElement} {presentations : List MixPresentation}
    {primary additional : Profile} (ok : selectSequenceProfile elements presentations = .ok (primary, additional)) :
    additional = primary ∧ primary.isReserved = false ∧ (∃ floor, sequenceFloor elements = .ok floor ∧ floor ≤ primary) ∧
      ∀ m ∈ presentations, Suffices elements primary m := by
  unfold selectSequenceProfile at ok
  obtain ⟨floor, floored, ok⟩ := exceptBindOk ok
  obtain ⟨profile, raised, ok⟩ := exceptBindOk ok
  cases ok
  obtain ⟨above, each⟩ := (raiseForLe raised _).mp (le_refl _)
  exact ⟨rfl, raiseForKnown (sequenceFloorKnown floored) raised, ⟨floor, floored, above⟩, each⟩

theorem complianceNil {elements : List AudioElement} {presentations : List MixPresentation} {profile : Profile}
    (known : profile.isReserved = false) (some' : presentations ≠ [])
    (each : ∀ m ∈ presentations, Suffices elements profile m) :
    complianceFindings profile.toWire profile.toWire elements presentations = [] := by
  have complies : compliesWith elements presentations profile = true := by
    obtain ⟨m, among⟩ := List.exists_mem_of_ne_nil _ some'
    obtain ⟨needed, minimum, below⟩ := each m among
    refine List.any_eq_true.mpr ⟨m, among, ?_⟩
    simp only [minimum]
    exact decide_eq_true below
  unfold complianceFindings
  simp only [Profile.fromWireToWire known, known, complies, bne_self_eq_false, Bool.false_and, Bool.not_true,
    Bool.false_eq_true, if_false, List.append_eq_nil_iff, findingIfNil, and_self]

theorem limitsNil {elements : List AudioElement} {profile floor : Profile} (known : profile.isReserved = false)
    (floored : sequenceFloor elements = .ok floor) (below : floor ≤ profile) :
    sequenceLimitFindings profile.toWire elements = [] := by
  unfold sequenceLimitFindings aboveProfile
  simp only [Profile.fromWireToWire known, known, floored, Bool.false_eq_true, if_false, findingIfNil]
  exact decide_eq_false (not_lt.mpr below)

end Iamf.Wire
