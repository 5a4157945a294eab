import Iamf.GreedyLanguage
import Iamf.LanguageTag

/-! The language of tags by its grammar: case does not matter in it, and every piece between hyphens is a
run of letters and digits. -/
namespace Iamf.Wire
open scoped Computability
open BitString GreedyLanguage

namespace TagGrammar

def alpha (byte : UInt8) : Bool := (0x41 ≤ byte && byte ≤ 0x5a) || (0x61 ≤ byte && byte ≤ 0x7a)

def digit (byte : UInt8) : Bool := 0x30 ≤ byte && byte ≤ 0x39

def alphanum (byte : UInt8) : Bool := alpha byte || digit byte

def run (lo hi : Nat) (kind : UInt8 → Bool) : Language UInt8 :=
  {w | lo ≤ w.length ∧ w.length ≤ hi ∧ w.all kind = true}

def hyphen : Language UInt8 := single (· == 0x2d)

def extlang : Language UInt8 := run 3 3 alpha * (1 + hyphen * run 3 3 alpha) ^ 2

def language : Language UInt8 := run 2 3 alpha * (1 + hyphen * extlang) + run 4 4 alpha + run 5 8 alpha

def script : Language UInt8 := run 4 4 alpha

def region : Language UInt8 := run 2 2 alpha + run 3 3 digit

def variant : Language UInt8 := run 5 8 alphanum + run 1 1 digit * run 3 3 alphanum

def singleton (byte : UInt8) : Bool :=
  digit byte || (0x41 ≤ byte && byte ≤ 0x57) || (0x59 ≤ byte && byte ≤ 0x5a) || (0x61 ≤ byte && byte ≤ 0x77) ||
    (0x79 ≤ byte && byte ≤ 0x7a)

def extension : Language UInt8 := single singleton * (hyphen * run 2 8 alphanum * (hyphen * run 2 8 alphanum)∗)

def marker (byte : UInt8) : Bool := byte == 0x58 || byte == 0x78

def privateuse : Language UInt8 :=
  single marker * (hyphen * run 1 8 alphanum * (hyphen * run 1 8 alphanum)∗)

def langtag : Language UInt8 :=
  language * (1 + hyphen * script) * (1 + hyphen * region) * (hyphen * variant)∗ * (hyphen * extension)∗ *
    (1 + hyphen * privateuse)

def literals (texts : List String) : Language UInt8 :=
  {w | ∃ text ∈ texts, (ascii text).map toAsciiLowercase = w.map toAsciiLowercase}

def irregular : Language UInt8 :=
  literals ["en-GB-oed", "i-ami", "i-bnn", "i-default", "i-enochian", "i-hak", "i-klingon", "i-lux", "i-mingo",
    "i-navajo", "i-pwn", "i-tao", "i-tay", "i-tsu", "sgn-BE-FR", "sgn-BE-NL", "sgn-CH-DE"]

def regular : Language UInt8 :=
  literals ["art-lojban", "cel-gaulish", "no-bok", "no-nyn", "zh-guoyu", "zh-hakka", "zh-min", "zh-min-nan",
    "zh-xiang"]

def grandfathered : Language UInt8 := irregular + regular

def languageTag : Language UInt8 := langtag + privateuse + grandfathered

end TagGrammar

open TagGrammar

theorem lowercaseMarker (byte : UInt8) : marker byte = true ↔ toAsciiLowercase byte = 0x78 := by
  simp only [marker, toAsciiLowercase, isAsciiUppercase, beq_iff_eq, Bool.or_eq_true, Bool.and_eq_true,
    decide_eq_true_eq, UInt8.le_iff_toNat_le, ← UInt8.toNat_inj]
  split
  all_goals
    simp only [UInt8.toNat_add, UInt8.reduceToNat] at *
    omega

theorem lowercaseAlpha (byte : UInt8) : isAsciiAlphabetic (toAsciiLowercase byte) = isAsciiAlphabetic byte := by
  rw [Bool.eq_iff_iff]
  simp only [isAsciiAlphabetic, toAsciiLowercase, isAsciiUppercase, Bool.or_eq_true, Bool.and_eq_true,
    decide_eq_true_eq, UInt8.le_iff_toNat_le]
  split
  · simp only [UInt8.toNat_add, UInt8.reduceToNat] at *
    omega
  · rfl

theorem lowercaseDigit (byte : UInt8) : isAsciiDigit (toAsciiLowercase byte) = isAsciiDigit byte := by
  rw [Bool.eq_iff_iff]
  simp only [isAsciiDigit, toAsciiLowercase, isAsciiUppercase, Bool.and_eq_true, decide_eq_true_eq,
    UInt8.le_iff_toNat_le]
  split
  · simp only [UInt8.toNat_add, UInt8.reduceToNat] at *
    omega
  · rfl

theorem lowercaseFixed (byte : UInt8) : isAsciiUppercase (toAsciiLowercase byte) = false := by
  rw [← Bool.not_eq_true]
  simp only [toAsciiLowercase, isAsciiUppercase, Bool.and_eq_true, decide_eq_true_eq, UInt8.le_iff_toNat_le]
  split
  · simp only [UInt8.toNat_add, UInt8.reduceToNat] at *
    omega
  · assumption

theorem lowercaseAgain (byte : UInt8) : toAsciiLowercase (toAsciiLowercase byte) = toAsciiLowercase byte :=
  if_neg (Bool.not_eq_true _ ▸ lowercaseFixed byte)

theorem singletonByte (byte : UInt8) :
    TagGrammar.singleton byte = true ↔ alphanum byte = true ∧ ¬ marker byte = true := by
  simp only [TagGrammar.singleton, marker, digit, alphanum, alpha, Bool.or_eq_true, Bool.and_eq_true, beq_iff_eq,
    decide_eq_true_eq, UInt8.le_iff_toNat_le, ← UInt8.toNat_inj, UInt8.reduceToNat]
  omega

def SameCase (a b : UInt8) : Prop := toAsciiLowercase a = toAsciiLowercase b

def Folds (kind : UInt8 → Bool) : Prop := ∀ byte, kind (toAsciiLowercase byte) = kind byte

section

variable {kind : UInt8 → Bool}

theorem foldsSame (folds : Folds kind) {a b : UInt8} (same : SameCase a b) : kind a = kind b := by
  rw [← folds a, same, folds b]

theorem foldsAll (folds : Folds kind) {u v : Bytes} (related : List.Forall₂ SameCase u v) :
    u.all kind = v.all kind := by
  induction related with
  | nil => rfl
  | cons same _ ih => rw [List.all_cons, List.all_cons, foldsSame folds same, ih]

theorem closedSingle (folds : Folds kind) : Closed SameCase (single kind) := by
  rintro _ v ⟨byte, among, rfl⟩ related
  obtain ⟨other, rest, same, ends, rfl⟩ := List.forall₂_cons_left_iff.mp related
  cases ends
  exact ⟨other, foldsSame folds same ▸ among, rfl⟩

theorem closedRun (folds : Folds kind) {lo hi : Nat} : Closed SameCase (run lo hi kind) := by
  rintro u v ⟨least, most, all⟩ related
  exact ⟨related.length_eq ▸ least, related.length_eq ▸ most, foldsAll folds related ▸ all⟩

theorem sameCaseMap {u v : Bytes} (related : List.Forall₂ SameCase u v) :
    u.map toAsciiLowercase = v.map toAsciiLowercase := by
  induction related with
  | nil => rfl
  | cons same _ ih => rw [List.map_cons, List.map_cons, same, ih]

theorem mapSameCase {u v : Bytes} (same : u.map toAsciiLowercase = v.map toAsciiLowercase) :
    List.Forall₂ SameCase u v := by
  rw [← List.forall₂_eq_eq_eq, List.forall₂_map_left_iff, List.forall₂_map_right_iff] at same
  exact same

theorem closedLiterals {texts : List String} : Closed SameCase (literals texts) := by
  rintro u v ⟨text, listed, same⟩ related
  exact ⟨text, listed, same.trans (sameCaseMap related)⟩

end

theorem foldsAlpha : Folds alpha := lowercaseAlpha

theorem foldsDigit : Folds digit := lowercaseDigit

theorem foldsAlphanum : Folds alphanum := fun byte => by
  rw [alphanum, alphanum, foldsAlpha, foldsDigit]

theorem foldsMarker : Folds marker := fun byte => by
  rw [Bool.eq_iff_iff, lowercaseMarker, lowercaseMarker, lowercaseAgain]

theorem foldsSingleton : Folds TagGrammar.singleton := fun byte => by
  rw [Bool.eq_iff_iff, singletonByte, singletonByte, foldsAlphanum, foldsMarker]

theorem foldsHyphen : Folds (· == 0x2d) := fun byte => by
  rw [Bool.eq_iff_iff, beq_iff_eq, beq_iff_eq]
  simp only [toAsciiLowercase, isAsciiUppercase, Bool.and_eq_true, decide_eq_true_eq, UInt8.le_iff_toNat_le,
    ← UInt8.toNat_inj]
  split
  · simp only [UInt8.toNat_add, UInt8.reduceToNat] at *
    omega
  · rfl

theorem closedPrivateUse : Closed SameCase TagGrammar.privateuse :=
  have next := closedMul (closedSingle foldsHyphen) (closedRun foldsAlphanum)
  closedMul (closedSingle foldsMarker) (closedMul next (closedRepeated next))

theorem closedExtension : Closed SameCase TagGrammar.extension :=
  have next := closedMul (closedSingle foldsHyphen) (closedRun foldsAlphanum)
  closedMul (closedSingle foldsSingleton) (closedMul next (closedRepeated next))

theorem closedLanguage : Closed SameCase language := by
  have next : Closed SameCase (1 + hyphen * run 3 3 alpha) :=
    closedAdd closedOne (closedMul (closedSingle foldsHyphen) (closedRun foldsAlpha))
  have chain : Closed SameCase (1 + hyphen * extlang) :=
    closedAdd closedOne (closedMul (closedSingle foldsHyphen) (closedMul (closedRun foldsAlpha) (closedPow next 2)))
  exact closedAdd (closedAdd (closedMul (closedRun foldsAlpha) chain) (closedRun foldsAlpha)) (closedRun foldsAlpha)

theorem closedVariant : Closed SameCase variant :=
  closedAdd (closedRun foldsAlphanum) (closedMul (closedRun foldsDigit) (closedRun foldsAlphanum))

theorem closedLangtag : Closed SameCase langtag := by
  have behind {L : Language UInt8} (closed : Closed SameCase L) : Closed SameCase (hyphen * L) :=
    closedMul (closedSingle foldsHyphen) closed
  refine closedMul (closedMul (closedMul (closedMul (closedMul closedLanguage ?_) ?_) ?_) ?_) ?_
  · exact closedAdd closedOne (behind (closedRun foldsAlpha))
  · exact closedAdd closedOne (behind (closedAdd (closedRun foldsAlpha) (closedRun foldsDigit)))
  · exact closedRepeated (behind closedVariant)
  · exact closedRepeated (behind closedExtension)
  · exact closedAdd closedOne (behind closedPrivateUse)

theorem spelledSubtag {kind : Bytes → Bool} {L : Language UInt8} (meaning : ∀ {w}, w ∈ L ↔ kind w = true) :
    spelled (0x2d :: ·) (single kind) = hyphen * L := by
  ext t
  constructor
  · rintro ⟨_, ⟨subtag, among, rfl⟩, rfl⟩
    exact ⟨[0x2d], ⟨_, rfl, rfl⟩, subtag, meaning.mpr among, (List.append_nil _).symm⟩
  · rintro ⟨_, ⟨byte, hyphens, rfl⟩, subtag, inside, rfl⟩
    rw [beq_iff_eq.mp hyphens]
    exact ⟨[subtag], ⟨subtag, meaning.mp inside, rfl⟩, List.append_nil _⟩

theorem withinRun {kind : UInt8 → Bool} (free : kind 0x2d = false) {lo hi : Nat} :
    Within (· ≠ 0x2d) (run lo hi kind) := by
  rintro w ⟨_, _, all⟩ byte among rfl
  rw [List.all_eq_true.mp all _ among] at free
  cases free

theorem hyphenFree {kind : Bytes → Bool} {L : Language UInt8} (meaning : ∀ {w}, w ∈ L ↔ kind w = true)
    (free : Within (· ≠ 0x2d) L) : Within (0x2d ∉ ·) (single kind) :=
  withinSingle fun w among inside => free w (meaning.mpr among) _ inside rfl

theorem runOne {kind : UInt8 → Bool} {w : Bytes} : w ∈ run 1 1 kind ↔ w ∈ single kind := by
  constructor
  · rintro ⟨least, most, all⟩
    obtain ⟨byte, rfl⟩ := List.length_eq_one_iff.mp (Nat.le_antisymm most least)
    exact ⟨byte, by simpa using all, rfl⟩
  · rintro ⟨byte, among, rfl⟩
    exact ⟨Nat.le_refl _, Nat.le_refl _, by simpa using among⟩

def subtag : Language UInt8 := {w | w ≠ [] ∧ w.all alphanum = true}

def subtags : Language UInt8 := subtag * (hyphen * subtag)∗

theorem runSubtag {kind : UInt8 → Bool} {lo hi : Nat} (least : 0 < lo)
    (among : ∀ byte, kind byte = true → alphanum byte = true) : run lo hi kind ≤ subtag := by
  rintro w ⟨long, _, all⟩
  refine ⟨fun empty => by subst empty; exact absurd long (Nat.not_le.mpr least), ?_⟩
  exact List.all_eq_true.mpr fun byte inside => among byte (List.all_eq_true.mp all byte inside)

theorem memSubtags {t : Bytes} : t ∈ subtags ↔
    (t.splitOn 0x2d).all (fun piece => !piece.isEmpty && piece.all alphanum) = true := by
  have kind {w : Bytes} : w ∈ subtag ↔ (fun piece : Bytes => !piece.isEmpty && piece.all alphanum) w = true := by
    rw [Bool.and_eq_true, Bool.not_eq_true', List.isEmpty_eq_false_iff]
    rfl
  have free : Within (· ≠ 0x2d) subtag := by
    rintro w ⟨_, all⟩ byte inside rfl
    cases List.all_eq_true.mp all _ inside
  match split : t.splitOn 0x2d with
  | [] => exact absurd split (List.splitOn_ne_nil _ _)
  | first :: rest =>
    rw [subtags, ← spelledSubtag kind, ← spelledRepeated,
      memSplitAt free (withinRepeated (hyphenFree kind free)) split, repeatedSingle, kind, List.all_cons]
    simp only [Bool.and_eq_true]

theorem oneSubtag : subtag ≤ subtags := by
  calc subtag = subtag * 1 := (mul_one _).symm
    _ ≤ subtags := mul_le_mul_right one_le_kstar subtag

theorem furtherSubtags {L : Language UInt8} (inside : L ≤ subtags) : hyphen * L ≤ (hyphen * subtag)∗ := by
  calc hyphen * L ≤ hyphen * subtags := mul_le_mul_right inside hyphen
    _ = hyphen * subtag * (hyphen * subtag)∗ := (mul_assoc _ _ _).symm
    _ ≤ (hyphen * subtag)∗ := mul_kstar_le_kstar

theorem optionalSubtags {L : Language UInt8} (inside : L ≤ subtags) : 1 + hyphen * L ≤ (hyphen * subtag)∗ :=
  add_le one_le_kstar (furtherSubtags inside)

theorem repeatedSubtags {L : Language UInt8} (inside : L ≤ subtags) : (hyphen * L)∗ ≤ (hyphen * subtag)∗ := by
  calc (hyphen * L)∗ ≤ (hyphen * subtag)∗∗ := kstar_mono (furtherSubtags inside)
    _ = (hyphen * subtag)∗ := kstar_idem _

theorem appendSubtags {L M : Language UInt8} (first : L ≤ subtags) (rest : M ≤ (hyphen * subtag)∗) :
    L * M ≤ subtags := by
  calc L * M ≤ subtag * (hyphen * subtag)∗ * (hyphen * subtag)∗ := mul_le_mul' first rest
    _ = subtags := by rw [mul_assoc, kstar_mul_kstar, subtags]

theorem runSubtags {kind : UInt8 → Bool} {lo hi : Nat} (least : 0 < lo)
    (among : ∀ byte, kind byte = true → alphanum byte = true) : run lo hi kind ≤ subtags :=
  (runSubtag least among).trans oneSubtag

theorem alphaAlphanum (byte : UInt8) (letter : alpha byte = true) : alphanum byte = true := by
  rw [alphanum, letter, Bool.true_or]

theorem digitAlphanum (byte : UInt8) (digits : digit byte = true) : alphanum byte = true := by
  rw [alphanum, digits, Bool.or_true]

theorem singleSubtags {kind : UInt8 → Bool} (among : ∀ byte, kind byte = true → alphanum byte = true) :
    single kind ≤ subtags := fun _ inside => runSubtags (Nat.one_pos) among (runOne.mpr inside)

theorem languageSubtags : language ≤ subtags := by
  have letters {lo hi : Nat} (least : 0 < lo) : run lo hi alpha ≤ subtags := runSubtags least alphaAlphanum
  have chain : extlang ≤ subtags := by
    refine appendSubtags (letters (by omega)) ?_
    calc (1 + hyphen * run 3 3 alpha) ^ 2
        ≤ ((hyphen * subtag)∗) ^ 2 := pow_le_pow_left' (optionalSubtags (letters (by omega))) 2
      _ = (hyphen * subtag)∗ := by rw [pow_two, kstar_mul_kstar]
  refine add_le (add_le (appendSubtags ?_ (optionalSubtags chain)) ?_) ?_
  all_goals exact letters (by omega)

theorem variantSubtags : variant ≤ subtags := by
  refine add_le (runSubtags (by omega) fun _ => id) (LE.le.trans ?_ oneSubtag)
  rintro _ ⟨u, first, v, second, rfl⟩
  obtain ⟨filled, all⟩ := runSubtag (by omega) digitAlphanum first
  obtain ⟨_, others⟩ := runSubtag (by omega) (fun _ => id) second
  exact ⟨fun empty => filled (List.append_eq_nil_iff.mp empty).1, by rw [List.all_append, all, others]; rfl⟩

theorem manySubtags {kind : UInt8 → Bool} {lo hi : Nat} (least : 0 < lo)
    (among : ∀ byte, kind byte = true → alphanum byte = true) :
    single kind * (hyphen * run lo hi alphanum * (hyphen * run lo hi alphanum)∗) ≤ subtags := by
  have next : run lo hi alphanum ≤ subtags := runSubtags least fun _ => id
  refine appendSubtags (singleSubtags among) ?_
  calc hyphen * run lo hi alphanum * (hyphen * run lo hi alphanum)∗
      ≤ (hyphen * subtag)∗ * (hyphen * subtag)∗ := mul_le_mul' (furtherSubtags next) (repeatedSubtags next)
    _ = (hyphen * subtag)∗ := kstar_mul_kstar _

theorem privateUseSubtags : TagGrammar.privateuse ≤ subtags := by
  refine manySubtags (by omega) fun byte marks => ?_
  rcases Bool.or_eq_true_iff.mp marks with upper | lower
  · rw [beq_iff_eq.mp upper]; rfl
  · rw [beq_iff_eq.mp lower]; rfl

theorem langtagSubtags : langtag ≤ subtags := by
  have letters {lo hi : Nat} (least : 0 < lo) : run lo hi alpha ≤ subtags := runSubtags least alphaAlphanum
  refine appendSubtags (appendSubtags (appendSubtags (appendSubtags (appendSubtags languageSubtags ?_) ?_) ?_) ?_) ?_
  · exact optionalSubtags (letters (by omega))
  · exact optionalSubtags (add_le (letters (by omega)) (runSubtags (by omega) digitAlphanum))
  · exact repeatedSubtags variantSubtags
  · exact repeatedSubtags (manySubtags (by omega) fun byte among => ((singletonByte byte).mp among).1)
  · exact optionalSubtags privateUseSubtags

theorem closedSubtags : Closed SameCase subtags := by
  have piece : Closed SameCase subtag := by
    rintro u v ⟨filled, all⟩ related
    refine ⟨fun empty => filled ?_, foldsAll foldsAlphanum related ▸ all⟩
    subst empty
    cases related
    rfl
  exact closedMul piece (closedRepeated (closedMul (closedSingle foldsHyphen) piece))

theorem literalSubtags {texts : List String} (listed : ∀ text ∈ texts, ascii text ∈ subtags) :
    literals texts ≤ subtags := by
  rintro t ⟨text, among, same⟩
  exact closedSubtags (ascii text) t (listed text among) (mapSameCase same)

theorem languageTagSubtags : languageTag ≤ subtags := by
  refine add_le (add_le langtagSubtags privateUseSubtags) (add_le (literalSubtags ?_) (literalSubtags ?_))
  · simp only [memSubtags]; decide
  · simp only [memSubtags]; decide

end Iamf.Wire
