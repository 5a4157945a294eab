import Iamf.TagGrammar

/-! The forward pass over the subtags of a tag decides the grammar. -/
namespace Iamf.Wire
open scoped Computability
open BitString GreedyLanguage TagGrammar

theorem runAlpha {lo hi : Nat} {w : Bytes} : w ∈ run lo hi alpha ↔ isAlpha lo hi w = true := by
  simp only [isAlpha, Bool.and_eq_true, decide_eq_true_eq, and_assoc]
  rfl

theorem runAlphanum {lo hi : Nat} {w : Bytes} : w ∈ run lo hi alphanum ↔ isAlphanumeric lo hi w = true := by
  simp only [isAlphanumeric, Bool.and_eq_true, decide_eq_true_eq, and_assoc]
  rfl

theorem runDigits {w : Bytes} : w ∈ run 3 3 digit ↔ isDigits 3 w = true := by
  simp only [isDigits, Bool.and_eq_true, beq_iff_eq]
  constructor
  · rintro ⟨least, most, digits⟩; exact ⟨by omega, digits⟩
  · rintro ⟨length, digits⟩; exact ⟨by omega, by omega, digits⟩

def isRegion (subtag : Bytes) : Bool := isAlpha 2 2 subtag || isDigits 3 subtag

theorem regionSubtag {w : Bytes} : w ∈ region ↔ isRegion w = true := by
  rw [isRegion, Bool.or_eq_true, ← runAlpha, ← runDigits]
  rfl

theorem markerSubtag {w : Bytes} : w ∈ single marker ↔ isPrivateUseMarker w = true := by
  have marks : isPrivateUseMarker w = true ↔ w.map toAsciiLowercase = [0x78] := by
    rw [isPrivateUseMarker, eqIgnoreAsciiCase, beq_iff_eq]
    rfl
  rw [marks, List.map_eq_singleton_iff]
  refine exists_congr fun byte => ?_
  rw [lowercaseMarker, and_comm]

theorem singletonSubtag {w : Bytes} : w ∈ single TagGrammar.singleton ↔ isSingleton w = true := by
  rw [isSingleton, Bool.and_eq_true, Bool.not_eq_true', ← Bool.not_eq_true, ← runAlphanum, ← markerSubtag, runOne]
  constructor
  · rintro ⟨byte, kind, rfl⟩
    obtain ⟨among, other⟩ := (singletonByte byte).mp kind
    refine ⟨⟨byte, among, rfl⟩, ?_⟩
    rintro ⟨_, marks, same⟩
    cases same
    exact other marks
  · rintro ⟨⟨byte, among, rfl⟩, other⟩
    exact ⟨byte, (singletonByte byte).mpr ⟨among, fun marks => other ⟨byte, marks, rfl⟩⟩, rfl⟩

theorem variantSubtag {w : Bytes} : w ∈ variant ↔ isVariant w = true := by
  rw [isVariant, Bool.or_eq_true, ← runAlphanum, variant, Language.mem_add]
  refine or_congr Iff.rfl ?_
  rw [Bool.and_eq_true, ← runAlphanum]
  constructor
  · rintro ⟨u, first, v, ⟨least, most, all⟩, rfl⟩
    obtain ⟨byte, leads, rfl⟩ := runOne.mp first
    have among : alphanum byte = true := by rw [alphanum, leads, Bool.or_true]
    exact ⟨⟨Nat.succ_le_succ least, Nat.succ_le_succ most, Bool.and_eq_true_iff.mpr ⟨among, all⟩⟩, leads⟩
  · rintro ⟨⟨least, most, all⟩, leads⟩
    cases w with
    | nil => cases leads
    | cons byte w =>
      have rest : w.all alphanum = true := (Bool.and_eq_true_iff.mp all).2
      exact ⟨[byte], runOne.mpr ⟨byte, leads, rfl⟩, w,
        ⟨Nat.le_of_succ_le_succ least, Nat.le_of_succ_le_succ most, rest⟩, rfl⟩

def Sized (lo hi : Nat) (kind : Bytes → Bool) : Prop := ∀ w, kind w = true → lo ≤ w.length ∧ w.length ≤ hi

theorem sizedAlpha {lo hi : Nat} : Sized lo hi (isAlpha lo hi) := fun _ among =>
  have ⟨least, most, _⟩ := runAlpha.mpr among
  ⟨least, most⟩

theorem sizedAlphanumeric {lo hi : Nat} : Sized lo hi (isAlphanumeric lo hi) := fun _ among =>
  have ⟨least, most, _⟩ := runAlphanum.mpr among
  ⟨least, most⟩

theorem sizedSingleton : Sized 1 1 isSingleton := by
  intro w among
  obtain ⟨byte, _, rfl⟩ := singletonSubtag.mpr among
  exact ⟨Nat.le_refl _, Nat.le_refl _⟩

theorem sizedMarker : Sized 1 1 isPrivateUseMarker := by
  intro w among
  obtain ⟨byte, _, rfl⟩ := markerSubtag.mpr among
  exact ⟨Nat.le_refl _, Nat.le_refl _⟩

theorem sizedVariant : Sized 4 8 isVariant := by
  intro w among
  rw [isVariant, Bool.or_eq_true, Bool.and_eq_true] at among
  rcases among with long | ⟨short, _⟩
  · have := sizedAlphanumeric w long; omega
  · have := sizedAlphanumeric w short; omega

theorem sizedRegion : Sized 2 3 isRegion := by
  intro w among
  rw [isRegion, Bool.or_eq_true] at among
  rcases among with letters | digits
  · have := sizedAlpha w letters; omega
  · have ⟨least, most, _⟩ := runDigits.mpr digits
    exact ⟨by omega, most⟩

theorem sizedApart {lo hi lo' hi' : Nat} {kind other : Bytes → Bool} (this : Sized lo hi kind)
    (that : Sized lo' hi' other) (apart : hi < lo' ∨ hi' < lo) (w : Bytes) (among : other w = true) :
    kind w = false := by
  rw [← Bool.not_eq_true]
  intro both
  have := this w both
  have := that w among
  omega

theorem digitLed {lo hi : Nat} {w : Bytes} (leads : w.head?.any isAsciiDigit = true) : isAlpha lo hi w = false := by
  rw [← Bool.not_eq_true]
  intro letters
  obtain ⟨_, _, all⟩ := runAlpha.mpr letters
  cases w with
  | nil => cases leads
  | cons byte w =>
    have letter : alpha byte = true := (Bool.and_eq_true_iff.mp all).1
    have digit : isAsciiDigit byte = true := leads
    simp only [alpha, isAsciiDigit, Bool.or_eq_true, Bool.and_eq_true, decide_eq_true_eq,
      UInt8.le_iff_toNat_le, UInt8.reduceToNat] at letter digit
    omega

theorem regionApart (w : Bytes) (among : isRegion w = true) : isAlpha 3 3 w = false := by
  rw [isRegion, Bool.or_eq_true] at among
  rcases among with letters | digits
  · exact sizedApart sizedAlpha sizedAlpha (by omega) w letters
  · obtain ⟨least, _, all⟩ := runDigits.mpr digits
    cases w with
    | nil => cases least
    | cons byte w => exact digitLed (Bool.and_eq_true_iff.mp all).1

theorem variantApart (w : Bytes) (among : isVariant w = true) : isAlpha 4 4 w = false := by
  rw [isVariant, Bool.or_eq_true, Bool.and_eq_true] at among
  rcases among with long | ⟨_, leads⟩
  · exact sizedApart sizedAlpha sizedAlphanumeric (by omega) w long
  · exact digitLed leads

namespace Subtags

def privateuse : Language Bytes :=
  single isPrivateUseMarker * (single (isAlphanumeric 1 8) * (single (isAlphanumeric 1 8))∗)

def extension : Language Bytes :=
  single isSingleton * (single (isAlphanumeric 2 8) * (single (isAlphanumeric 2 8))∗)

def fromExtensions : Language Bytes := extension∗ * (1 + privateuse)

def fromVariants : Language Bytes := (single isVariant)∗ * fromExtensions

def fromRegion : Language Bytes := (1 + single isRegion) ^ 1 * fromVariants

def fromScript : Language Bytes := (1 + single (isAlpha 4 4)) ^ 1 * fromRegion

def fromExtlang (extlangs : Nat) : Language Bytes := (1 + single (isAlpha 3 3)) ^ extlangs * fromScript

end Subtags

open Subtags

section

variable {lo hi : Nat} {kind : Bytes → Bool}

theorem avoidsPrivateUse (apart : ∀ w, isPrivateUseMarker w = true → kind w = false) :
    Avoids kind (1 + Subtags.privateuse) := avoidsAdd avoidsOne (avoidsSingle apart)

theorem avoidsExtensions (sized : Sized lo hi kind) (long : 1 < lo) : Avoids kind fromExtensions := by
  refine avoidsRepeated (fun N => ?_) (avoidsPrivateUse (sizedApart sized sizedMarker (.inr long)))
  rw [Subtags.extension, mul_assoc]
  exact avoidsSingle (sizedApart sized sizedSingleton (.inr long))

theorem avoidsVariants (sized : Sized lo hi kind) (long : 1 < lo) (apart : ∀ w, isVariant w = true → kind w = false) :
    Avoids kind fromVariants := avoidsRepeated (fun _ => avoidsSingle apart) (avoidsExtensions sized long)

theorem avoidsRegion : Avoids (isAlpha 4 4) fromRegion := by
  rw [fromRegion, pow_one]
  exact avoidsOptional (avoidsSingle (sizedApart sizedAlpha sizedRegion (by omega)))
    (avoidsVariants sizedAlpha (by omega) variantApart)

theorem avoidsScript : Avoids (isAlpha 3 3) fromScript := by
  rw [fromScript, pow_one, fromRegion, pow_one]
  exact avoidsOptional (avoidsSingle (sizedApart sizedAlpha sizedAlpha (by omega)))
    (avoidsOptional (avoidsSingle regionApart)
      (avoidsVariants sizedAlpha (by omega) (sizedApart sizedAlpha sizedVariant (by omega))))

end

theorem skipUpToMem {kind : Bytes → Bool} {M : Language Bytes} (avoids : Avoids kind M) (n : Nat)
    (w : List Bytes) : skipUpTo kind n w ∈ M ↔ w ∈ (1 + single kind) ^ n * M := by
  induction n generalizing w with
  | zero => rw [pow_zero, one_mul, skipUpTo]; simp
  | succ n ih =>
    cases w with
    | nil => rw [nilBounded, skipUpTo]; simp
    | cons subtag rest =>
      rw [skipUpTo]
      cases among : kind subtag with
      | true => rw [if_pos rfl, ih, kindBounded avoids among]
      | false => rw [if_neg (by simp), otherBounded among]

def Leaves (M : Language Bytes) (left : Option (List Bytes)) : Prop := ∃ rest ∈ M, left = some rest

theorem leavesSome {M : Language Bytes} {rest : List Bytes} : Leaves M (some rest) ↔ rest ∈ M := by
  constructor
  · rintro ⟨_, inside, same⟩; cases same; exact inside
  · intro inside; exact ⟨rest, inside, rfl⟩

theorem leavesNone {M : Language Bytes} : ¬ Leaves M none := by
  rintro ⟨_, _, same⟩
  cases same

theorem skipExtensionsMem {M : Language Bytes} (before : Avoids isSingleton M) (within : Avoids (isAlphanumeric 2 8) M)
    (w : List Bytes) :
    (Leaves M (skipExtensions w) ↔ w ∈ Subtags.extension∗ * M) ∧
    (Leaves M (skipExtension w) ↔
      w ∈ single (isAlphanumeric 2 8) * ((single (isAlphanumeric 2 8))∗ * (Subtags.extension∗ * M))) ∧
    (Leaves M (skipExtensionTail w) ↔ w ∈ (single (isAlphanumeric 2 8))∗ * (Subtags.extension∗ * M)) := by
  have further {w : List Bytes} : w ∈ Subtags.extension∗ * M ↔ w ∈ M ∨ w ∈ single isSingleton *
      (single (isAlphanumeric 2 8) * ((single (isAlphanumeric 2 8))∗ * (Subtags.extension∗ * M))) := by
    conv_lhs => rw [memRepeated, Subtags.extension, mul_assoc, mul_assoc]
    rfl
  induction w with
  | nil =>
    rw [memRepeated (L := single (isAlphanumeric 2 8)), further, skipExtensions, skipExtension, skipExtensionTail,
      leavesSome]
    simp [nilSingle, leavesNone]
  | cons subtag rest ih =>
    obtain ⟨_, inExtension, inTail⟩ := ih
    have start : Leaves M (skipExtensions (subtag :: rest)) ↔ subtag :: rest ∈ Subtags.extension∗ * M := by
      rw [further, consSingle, skipExtensions]
      cases opens : isSingleton subtag with
      | true =>
        have other : subtag :: rest ∉ M := fun inside => by rw [before _ _ inside] at opens; cases opens
        rw [if_pos rfl, inExtension, or_iff_right other, and_iff_right rfl]
      | false => rw [if_neg (by simp), leavesSome]; simp
    refine ⟨start, ?_, ?_⟩
    · rw [consSingle, skipExtension]
      cases among : isAlphanumeric 2 8 subtag with
      | true => rw [if_pos rfl, inTail, and_iff_right rfl]
      | false => rw [if_neg (by simp), iff_false_left leavesNone]; simp
    · rw [memRepeated (L := single (isAlphanumeric 2 8)), consSingle, ← start, skipExtensionTail]
      cases among : isAlphanumeric 2 8 subtag with
      | true =>
        -- a subtag that continues the run opens no extension
        have single : isSingleton subtag = false :=
          sizedApart sizedSingleton sizedAlphanumeric (by omega) subtag among
        have other : subtag :: rest ∉ M := fun inside => by rw [within _ _ inside] at among; cases among
        rw [if_pos rfl, inTail, and_iff_right rfl, skipExtensions, if_neg (by simp [single]), leavesSome,
          or_iff_right other]
      | false => rw [if_neg (by simp), skipExtensions]; simp

theorem privateUseTailMem {w : List Bytes} : privateUseTail w = true ↔
    w ∈ single (isAlphanumeric 1 8) * (single (isAlphanumeric 1 8))∗ := by
  cases w with
  | nil => simp [privateUseTail, nilSingle]
  | cons subtag rest => rw [consSingle, repeatedSingle]; simp [privateUseTail]

theorem markerApart (w : Bytes) (marks : isPrivateUseMarker w = true) : isSingleton w = false := by
  rw [isSingleton, marks, Bool.not_true, Bool.and_false]

theorem languageTailMem (extlangs : Nat) (w : List Bytes) :
    languageTail extlangs w = true ↔ w ∈ fromExtlang extlangs := by
  rw [fromExtlang, ← skipUpToMem avoidsScript, fromScript, ← skipUpToMem avoidsRegion, fromRegion,
    ← skipUpToMem (avoidsVariants sizedRegion (by omega) (sizedApart sizedRegion sizedVariant (by omega))),
    fromVariants, ← dropWhileMem (avoidsExtensions sizedVariant (by omega)), fromExtensions,
    ← (skipExtensionsMem (avoidsPrivateUse markerApart)
        (avoidsPrivateUse (sizedApart sizedAlphanumeric sizedMarker (by omega))) _).1, languageTail]
  rw [show (fun subtag => isAlpha 2 2 subtag || isDigits 3 subtag) = isRegion from rfl]
  generalize skipExtensions _ = left
  rcases left with _ | _ | ⟨marker, rest⟩
  · simp [leavesNone]
  · rw [leavesSome]
    exact iff_of_true rfl (.inl rfl)
  · rw [leavesSome, Language.mem_add, Subtags.privateuse, consSingle, Bool.and_eq_true, privateUseTailMem]
    simp [Language.mem_one]

theorem spelledPrivateUse : spelled (0x2d :: ·) Subtags.privateuse = hyphen * TagGrammar.privateuse := by
  rw [Subtags.privateuse, spelledMul, spelledMul, spelledRepeated, spelledSubtag markerSubtag,
    spelledSubtag runAlphanum, TagGrammar.privateuse, mul_assoc]

theorem spelledExtension : spelled (0x2d :: ·) Subtags.extension = hyphen * TagGrammar.extension := by
  rw [Subtags.extension, spelledMul, spelledMul, spelledRepeated, spelledSubtag singletonSubtag,
    spelledSubtag runAlphanum, TagGrammar.extension, mul_assoc]

theorem spelledTail (extlangs : Nat) : spelled (0x2d :: ·) (fromExtlang extlangs) =
    (1 + hyphen * run 3 3 alpha) ^ extlangs * ((1 + hyphen * script) * ((1 + hyphen * region) *
      ((hyphen * variant)∗ * ((hyphen * TagGrammar.extension)∗ * (1 + hyphen * TagGrammar.privateuse))))) := by
  simp only [fromExtlang, fromScript, fromRegion, fromVariants, fromExtensions, pow_one, spelledMul, spelledPow,
    spelledAdd, spelledOne, spelledRepeated, spelledPrivateUse, spelledExtension]
  rw [spelledSubtag runAlpha, spelledSubtag runAlpha, spelledSubtag regionSubtag,
    spelledSubtag variantSubtag, script]

theorem langtagTails : langtag =
    run 2 3 alpha * spelled (0x2d :: ·) (fromExtlang 3) +
      (run 4 4 alpha + run 5 8 alpha) * spelled (0x2d :: ·) (fromExtlang 0) := by
  have chain : 1 + hyphen * extlang = (1 + hyphen * run 3 3 alpha) ^ 3 := by
    rw [← optionalFirst, extlang, mul_assoc]
  rw [langtag, language, chain, spelledTail, spelledTail, pow_zero, one_mul]
  simp only [add_mul, mul_assoc, add_assoc]

theorem tailFree (extlangs : Nat) : Within (0x2d ∉ ·) (fromExtlang extlangs) := by
  have letters {lo hi : Nat} : Within (0x2d ∉ ·) (single (isAlpha lo hi)) := hyphenFree runAlpha (withinRun rfl)
  have alphanums {lo hi : Nat} : Within (0x2d ∉ ·) (single (isAlphanumeric lo hi)) :=
    hyphenFree runAlphanum (withinRun rfl)
  refine withinMul (withinPow (withinAdd withinOne letters) _) ?_
  refine withinMul (withinPow (withinAdd withinOne letters) _) ?_
  refine withinMul (withinPow (withinAdd withinOne (hyphenFree regionSubtag ?_)) _) ?_
  · exact withinAdd (withinRun rfl) (withinRun rfl)
  refine withinMul (withinRepeated (hyphenFree variantSubtag ?_)) ?_
  · exact withinAdd (withinRun rfl) (withinMul (withinRun rfl) (withinRun rfl))
  refine withinMul (withinRepeated (withinMul (hyphenFree singletonSubtag ?_) ?_)) ?_
  · exact withinSingle fun byte among hyphen => by subst hyphen; cases among
  · exact withinMul alphanums (withinRepeated alphanums)
  · refine withinAdd withinOne (withinMul (hyphenFree markerSubtag ?_) (withinMul alphanums (withinRepeated alphanums)))
    exact withinSingle fun byte among hyphen => by subst hyphen; cases among

theorem irregularListed {t : Bytes} :
    irregularGrandfathered.any (eqIgnoreAsciiCase · t) = true ↔ t ∈ irregular := by
  simp only [irregularGrandfathered, List.any_map, List.any_eq_true, eqIgnoreAsciiCase, Function.comp, beq_iff_eq]
  rfl

section

variable {t first : Bytes} {rest : List Bytes} (split : t.splitOn 0x2d = first :: rest)
include split

theorem langtagSplit : t ∈ langtag ↔
    isAlpha 2 8 first = true ∧ languageTail (if first.length ≤ 3 then 3 else 0) rest = true := by
  have letters {lo hi : Nat} : Within (· ≠ 0x2d) (run lo hi alpha) := withinRun rfl
  rw [langtagTails, Language.mem_add, memSplitAt letters (tailFree 3) split,
    memSplitAt (withinAdd letters letters) (tailFree 0) split, Language.mem_add, ← languageTailMem,
    ← languageTailMem, ← runAlpha]
  by_cases short : first.length ≤ 3
  · rw [if_pos short]
    have no4 : first ∉ run 4 4 alpha := fun ⟨least, _⟩ => by omega
    have no5 : first ∉ run 5 8 alpha := fun ⟨least, _⟩ => by omega
    have same : first ∈ run 2 3 alpha ↔ first ∈ run 2 8 alpha :=
      ⟨fun ⟨least, _, all⟩ => ⟨least, by omega, all⟩, fun ⟨least, _, all⟩ => ⟨least, short, all⟩⟩
    simp only [no4, no5, same, or_self, false_and, or_false]
  · rw [if_neg short]
    have no2 : first ∉ run 2 3 alpha := fun ⟨_, most, _⟩ => short most
    have same : first ∈ run 4 4 alpha ∨ first ∈ run 5 8 alpha ↔ first ∈ run 2 8 alpha := by
      constructor
      · rintro (⟨least, most, all⟩ | ⟨least, most, all⟩) <;> exact ⟨by omega, by omega, all⟩
      · rintro ⟨least, most, all⟩
        by_cases four : first.length ≤ 4
        · exact .inl ⟨by omega, four, all⟩
        · exact .inr ⟨by omega, most, all⟩
    simp only [no2, same, false_and, false_or]

theorem privateUseSplit :
    t ∈ TagGrammar.privateuse ↔ isPrivateUseMarker first = true ∧ privateUseTail rest = true := by
  have next : spelled (0x2d :: ·) (single (isAlphanumeric 1 8) * (single (isAlphanumeric 1 8))∗) =
      hyphen * run 1 8 alphanum * (hyphen * run 1 8 alphanum)∗ := by
    rw [spelledMul, spelledRepeated, spelledSubtag runAlphanum]
  rw [TagGrammar.privateuse, ← next, privateUseTailMem, ← markerSubtag]
  refine memSplitAt (withinSingle fun byte among hyphen => by subst hyphen; cases among) ?_ split
  exact withinMul (hyphenFree runAlphanum (withinRun rfl)) (withinRepeated (hyphenFree runAlphanum (withinRun rfl)))

end

theorem acceptedTag {t : Bytes} :
    isWellFormedLanguageTag t = true ↔ t ∈ langtag + TagGrammar.privateuse + irregular := by
  rw [isWellFormedLanguageTag, Language.mem_add, Language.mem_add, ← irregularListed]
  cases irregularGrandfathered.any (eqIgnoreAsciiCase · t) with
  | true => simp
  | false =>
    match split : t.splitOn 0x2d with
    | [] => exact absurd split (List.splitOn_ne_nil _ _)
    | first :: rest =>
      rw [langtagSplit split, privateUseSplit split]
      cases marks : isPrivateUseMarker first with
      | true =>
        have short : isAlpha 2 8 first = false := sizedApart sizedAlpha sizedMarker (.inr (by decide)) first marks
        simp [marks, short]
      | false => simp [marks]

theorem closedAccepted : Closed SameCase (langtag + TagGrammar.privateuse + irregular) :=
  closedAdd (closedAdd closedLangtag closedPrivateUse) closedLiterals

theorem regularAccepted {t : Bytes} (inside : t ∈ regular) : isWellFormedLanguageTag t = true := by
  obtain ⟨text, listed, same⟩ := inside
  refine acceptedTag.mpr (closedAccepted (ascii text) t (acceptedTag.mp ?_) (mapSameCase same))
  clear same
  revert text
  decide

theorem wellFormedLanguageTag (t : Bytes) :
    (isWellFormedLanguageTag t = true ↔ t ∈ languageTag) ∧
    ((t.splitOn 0x2d).all (fun piece => !piece.isEmpty && piece.all alphanum) = false →
      isWellFormedLanguageTag t = false) := by
  have grammar : isWellFormedLanguageTag t = true ↔ t ∈ languageTag := by
    rw [languageTag, grandfathered, ← add_assoc, Language.mem_add _ regular, ← acceptedTag]
    exact ⟨.inl, fun inside => inside.elim id regularAccepted⟩
  refine ⟨grammar, fun broken => ?_⟩
  rw [← Bool.not_eq_true] at broken ⊢
  exact fun accepted => broken (memSubtags.mp (languageTagSubtags (grammar.mp accepted)))

theorem wellFormedLanguageTagDoubled : isWellFormedLanguageTag (ascii "en--US") = false :=
  (wellFormedLanguageTag (ascii "en--US")).2 (by decide)

end Iamf.Wire
