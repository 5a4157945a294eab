import Iamf.Binary64
import Iamf.EmitsWithin
import Iamf.MixPresentationCodec

/-! Loudness on its way to the wire: a reading is scaled, rounded and checked, and only then narrowed. -/
namespace Iamf.Wire
open Bits BitString TapeCodec TiesToEven

def loudnessOutOfRange : Error := ⟨.loudnessOutOfRange, .field "integrated_loudness"⟩

structure Q7_8 where
  fromRaw ::
  toI16 : Int16
  deriving DecidableEq, Repr

def q7_8Min : Binary64 := .ofInt (-32768) (by decide)

def q7_8Max : Binary64 := .ofInt 32767 (by decide)

def i16TryFrom (n : Int) (e : Error) : Except Error Int16 :=
  if -32768 ≤ n ∧ n ≤ 32767 then .ok (Int16.ofInt n) else .error e

def lufsToQ7_8 (lufs : Binary64) : Except Error Q7_8 :=
  if !lufs.isFinite then .error loudnessOutOfRange
  else
    let scaled := lufs.timesPower 8
    let rounded := scaled.roundTiesEven
    if rounded.less q7_8Min || q7_8Max.less rounded then .error loudnessOutOfRange
    else do
      let widened := rounded.asI64
      let raw ← i16TryFrom widened loudnessOutOfRange
      .ok (.fromRaw raw)

def Loudness.fromQ7_8 (integrated digitalPeak : Q7_8) : Loudness := .new integrated.toI16 digitalPeak.toI16

theorem q7_8MinValue : q7_8Min.value = some ((-32768 : Int) : ℚ) := Binary64.ofIntValue _ _

theorem q7_8MaxValue : q7_8Max.value = some ((32767 : Int) : ℚ) := Binary64.ofIntValue _ _

theorem lufsOverflows {lufs : Binary64} (finite : lufs.isFinite = true) {negative : Bool}
    (overflows : lufs.timesPower 8 = .infinite negative) : lufsToQ7_8 lufs = .error loudnessOutOfRange := by
  unfold lufsToQ7_8
  rw [finite, overflows]
  cases negative <;> rfl

theorem lufsToQ7_8Is {lufs : Binary64} {v : ℚ} (known : lufs.value = some v) : lufsToQ7_8 lufs =
    if -32768 ≤ roundTiesEven (v * 2 ^ 8) ∧ roundTiesEven (v * 2 ^ 8) ≤ 32767
    then .ok (.fromRaw (Int16.ofInt (roundTiesEven (v * 2 ^ 8)))) else .error loudnessOutOfRange := by
  have finite := Binary64.finiteValue.mpr ⟨v, known⟩
  have near := nearestRound (v * 2 ^ 8)
  have large : (2 : ℚ) ^ 16 ≤ 2 ^ (1024 : Int) := by
    rw [← zpow_natCast]
    exact zpow_le_zpow_right₀ (by norm_num) (by norm_num)
  have scaled := Binary64.timesPowerValue (k := 8) known
  generalize v * 2 ^ 8 = w at near scaled ⊢
  generalize (2 : ℚ) ^ (1024 : Int) = huge at large scaled
  rcases scaled with scaled | ⟨overflows, below⟩ | ⟨overflows, above⟩
  · have rounded := Binary64.roundValue scaled
    have low := Binary64.lessValue rounded q7_8MinValue
    have high := Binary64.lessValue q7_8MaxValue rounded
    have inside : ((lufs.timesPower 8).roundTiesEven.less q7_8Min ||
        q7_8Max.less (lufs.timesPower 8).roundTiesEven) = true ↔
          ¬ (-32768 ≤ roundTiesEven w ∧ roundTiesEven w ≤ 32767) := by
      rw [low, high, Bool.or_eq_true, decide_eq_true_eq, decide_eq_true_eq, Int.cast_lt, Int.cast_lt]
      omega
    unfold lufsToQ7_8
    rw [finite]
    simp only [Bool.not_true, Bool.false_eq_true, if_false, inside, ite_not]
    split_ifs with within
    · have cast : (lufs.timesPower 8).roundTiesEven.asI64 = roundTiesEven w :=
        Binary64.asI64Value rounded (by omega) (by omega)
      rw [cast]
      exact exceptBindOf _ (if_pos within)
    · rfl
  · rw [lufsOverflows finite overflows, if_neg]
    intro ⟨inside, _⟩
    have inside' : (-32768 : ℚ) ≤ roundTiesEven w := by exact_mod_cast inside
    linarith [near.above]
  · rw [lufsOverflows finite overflows, if_neg]
    intro ⟨_, inside⟩
    have inside' : (roundTiesEven w : ℚ) ≤ 32767 := by exact_mod_cast inside
    linarith [near.below]

theorem int16Inside (raw : Int16) : -32768 ≤ raw.toInt ∧ raw.toInt ≤ 32767 :=
  ⟨raw.le_toInt, Int.le_of_lt_add_one raw.toInt_lt⟩

theorem int16OfInt {n : Int} (inside : -32768 ≤ n ∧ n ≤ 32767) : (Int16.ofInt n).toInt = n :=
  Int16.toInt_ofInt_of_le inside.1 (Int.lt_add_one_of_le inside.2)

theorem lufsNotFinite {lufs : Binary64} (none : lufs.value = none) : lufsToQ7_8 lufs = .error loudnessOutOfRange := by
  have other : lufs.isFinite = false := by
    rw [← Bool.not_eq_true, Binary64.finiteValue, none]
    nofun
  unfold lufsToQ7_8
  rw [other]
  rfl

theorem lufsOk {lufs : Binary64} {q : Q7_8} :
    lufsToQ7_8 lufs = .ok q ↔ ∃ v, lufs.value = some v ∧ Nearest (v * 2 ^ 8) q.toI16.toInt := by
  constructor
  · intro ok
    cases known : lufs.value with
    | none =>
      rw [lufsNotFinite known] at ok
      cases ok
    | some v =>
      rw [lufsToQ7_8Is known] at ok
      split_ifs at ok with inside
      cases ok
      exact ⟨v, rfl, roundIs.mp (int16OfInt inside).symm⟩
  · intro ⟨v, known, near⟩
    have inside := int16Inside q.toI16
    rw [lufsToQ7_8Is known, roundIs.mpr near, if_pos inside, Int16.ofInt_toInt]

theorem lufsTaken {lufs : Binary64} : (∃ q, lufsToQ7_8 lufs = .ok q) ↔
    ∃ v, lufs.value = some v ∧ -65537 / 512 ≤ v ∧ v < 65535 / 512 := by
  have range (v : ℚ) : (-32768 ≤ roundTiesEven (v * 2 ^ 8) ∧ roundTiesEven (v * 2 ^ 8) ≤ 32767) ↔
      -65537 / 512 ≤ v ∧ v < 65535 / 512 := by
    rw [evenLeRound (by decide), roundLeOdd (by decide)]
    push_cast
    constructor <;> rintro ⟨low, high⟩ <;> constructor <;> linarith
  constructor
  · intro ⟨q, ok⟩
    obtain ⟨v, known, near⟩ := lufsOk.mp ok
    exact ⟨v, known, (range v).mp (roundIs.mpr near ▸ int16Inside _)⟩
  · intro ⟨v, known, inside⟩
    exact ⟨_, (lufsToQ7_8Is known).trans (if_pos ((range v).mpr inside))⟩

theorem lufsQuantised (lufs : Binary64) :
    (∀ q, lufsToQ7_8 lufs = .ok q ↔ ∃ v, lufs.value = some v ∧ Nearest (v * 2 ^ 8) q.toI16.toInt) ∧
    ((∃ q, lufsToQ7_8 lufs = .ok q) ↔ ∃ v, lufs.value = some v ∧ -65537 / 512 ≤ v ∧ v < 65535 / 512) ∧
    (∀ e, lufsToQ7_8 lufs = .error e → e = loudnessOutOfRange) ∧
    (∀ raw : Int16, lufs.value = some ((raw.toInt : ℚ) / 2 ^ 8) → lufsToQ7_8 lufs = .ok (.fromRaw raw)) ∧
    ∀ louder v w q q', lufs.value = some v → Binary64.value louder = some w → v ≤ w → lufsToQ7_8 lufs = .ok q →
      lufsToQ7_8 louder = .ok q' → q.toI16 ≤ q'.toI16 := by
  refine ⟨fun q => lufsOk, lufsTaken, fun e failed => ?_, fun raw known => ?_, fun louder v w q q' soft loud le ok ok' => ?_⟩
  · cases known : lufs.value with
    | none =>
      rw [lufsNotFinite known] at failed
      cases failed
      rfl
    | some v =>
      rw [lufsToQ7_8Is known] at failed
      split_ifs at failed
      cases failed
      rfl
  · refine lufsOk.mpr ⟨_, known, ?_⟩
    rw [div_mul_cancel₀ _ (by norm_num)]
    exact nearestInt _
  · obtain ⟨v', known, near⟩ := lufsOk.mp ok
    obtain ⟨w', known', near'⟩ := lufsOk.mp ok'
    cases soft.symm.trans known
    cases loud.symm.trans known'
    exact Int16.le_iff_toInt_le.mpr (nearestMono (mul_le_mul_of_nonneg_right le (by norm_num)) near near')

theorem measuredWritten (integrated digitalPeak : Q7_8) :
    ∃ bytes, finishWriter (writeLoudness (.fromQ7_8 integrated digitalPeak)) = .ok bytes ∧ bytes.length ≤ 5 := by
  have within : EmitsWithin (1 + (2 + (2 + 0))) (writeLoudness (.fromQ7_8 integrated digitalPeak)) := by
    unfold writeLoudness
    rw [show (!gatedExtension (.fromQ7_8 integrated digitalPeak)) = true from rfl, ensureTrue, pure_bind]
    exact withinBind (withinOctet _) (withinBind (withinI16 _) (withinBind (withinI16 _) (withinPure 0)))
  exact withinFinished within

theorem quantisedNear {lufs : Binary64} {v : ℚ} (known : lufs.value = some v) (inside : -65537 / 512 ≤ v ∧ v < 65535 / 512) :
    ∃ q, lufsToQ7_8 lufs = .ok q ∧ |(q.toI16.toInt : ℚ) / 2 ^ 8 - v| ≤ 1 / 512 := by
  obtain ⟨q, ok⟩ := lufsTaken.mpr ⟨v, known, inside⟩
  obtain ⟨v', known', near⟩ := lufsOk.mp ok
  cases known.symm.trans known'
  refine ⟨q, ok, abs_le.mpr ⟨?_, ?_⟩⟩
  · linarith [near.below]
  · linarith [near.above]

theorem loudnessSurvives {lufs peak : Binary64} {v p : ℚ} (measured : lufs.value = some v) (measured' : peak.value = some p)
    (inside : -65537 / 512 ≤ v ∧ v < 65535 / 512) (inside' : -65537 / 512 ≤ p ∧ p < 65535 / 512) :
    ∃ integrated digitalPeak bytes read, lufsToQ7_8 lufs = .ok integrated ∧ lufsToQ7_8 peak = .ok digitalPeak ∧
      finishWriter (writeLoudness (.fromQ7_8 integrated digitalPeak)) = .ok bytes ∧
      parsePayload readLoudness bytes = .ok (read, []) ∧ |(read.integrated.toInt : ℚ) / 2 ^ 8 - v| ≤ 1 / 512 ∧
      |(read.digitalPeak.toInt : ℚ) / 2 ^ 8 - p| ≤ 1 / 512 := by
  obtain ⟨integrated, ok, near⟩ := quantisedNear measured inside
  obtain ⟨digitalPeak, ok', near'⟩ := quantisedNear measured' inside'
  obtain ⟨bytes, written, _⟩ := measuredWritten integrated digitalPeak
  have read := parsePayloadPaired (pairedLoudness (.fromQ7_8 integrated digitalPeak)) written []
  rw [List.append_nil] at read
  exact ⟨integrated, digitalPeak, bytes, _, ok, ok', written, read, near, near'⟩

theorem loudnessSurvivesMeasured : ∃ integrated digitalPeak bytes read,
    lufsToQ7_8 (.finite (-13733) (-8) (by decide) (by decide) (by decide)) = .ok integrated ∧
    lufsToQ7_8 (.finite (-27465) (-9) (by decide) (by decide) (by decide)) = .ok digitalPeak ∧
    finishWriter (writeLoudness (.fromQ7_8 integrated digitalPeak)) = .ok bytes ∧
    parsePayload readLoudness bytes = .ok (read, []) ∧
    |(read.integrated.toInt : ℚ) / 2 ^ 8 - (-13733 : Int) * 2 ^ (-8 : Int)| ≤ 1 / 512 ∧
    |(read.digitalPeak.toInt : ℚ) / 2 ^ 8 - (-27465 : Int) * 2 ^ (-9 : Int)| ≤ 1 / 512 :=
  loudnessSurvives rfl rfl (by norm_num) (by norm_num)

end Iamf.Wire
