import Iamf.TiesToEven
import Mathlib.Algebra.Order.Field.Power
import Mathlib.Tactic.FieldSimp
import Mathlib.Tactic.Positivity
import Mathlib.Tactic.Ring

/-! IEEE 754 binary64, as far as multiplying by a power of two, rounding to an integer, comparing and
casting go. The sign of a zero is not kept: none of these depends on it. -/
namespace Iamf
open TiesToEven

inductive Binary64 where
  | finite (mantissa exponent : Int) (precise : mantissa.natAbs < 2 ^ 53) (low : -1074 ≤ exponent) (high : exponent ≤ 971)
  | infinite (negative : Bool)
  | nan

namespace Binary64

def value : Binary64 → Option ℚ
  | finite mantissa exponent .. => some (mantissa * 2 ^ exponent)
  | _ => none

def isFinite : Binary64 → Bool
  | finite .. => true
  | _ => false

def ofInt (n : Int) (precise : n.natAbs < 2 ^ 53) : Binary64 := finite n 0 precise (by decide) (by decide)

def timesPower (k : Nat) : Binary64 → Binary64
  | finite mantissa exponent precise low _ =>
    if high : exponent + k ≤ 971 then finite mantissa (exponent + k) precise (by omega) high
    else if precise : (mantissa * 2 ^ (exponent + k - 971).toNat).natAbs < 2 ^ 53 then
      finite (mantissa * 2 ^ (exponent + k - 971).toNat) 971 precise (by decide) (by decide)
    else infinite (mantissa < 0)
  | other => other

theorem halved (mantissa : Int) {exponent : Int} (fraction : ¬ 0 ≤ exponent) :
    |(mantissa * 2 ^ exponent : ℚ)| ≤ |(mantissa : ℚ)| * (1 / 2) := by
  have power : (2 : ℚ) ^ exponent ≤ 2 ^ (-1 : Int) := zpow_le_zpow_right₀ (by norm_num) (by omega)
  have positive : (0 : ℚ) < 2 ^ exponent := by positivity
  rw [abs_mul, abs_of_pos positive]
  refine mul_le_mul_of_nonneg_left (le_trans power ?_) (abs_nonneg _)
  norm_num

theorem roundedPrecise {mantissa exponent : Int} (precise : mantissa.natAbs < 2 ^ 53) (fraction : ¬ 0 ≤ exponent) :
    (TiesToEven.roundTiesEven (mantissa * 2 ^ exponent : ℚ)).natAbs < 2 ^ 53 := by
  have half := halved mantissa fraction
  have near := nearestRound (mantissa * 2 ^ exponent : ℚ)
  have most : |(mantissa : ℚ)| ≤ 2 ^ 53 := by
    rw [← Int.cast_abs, Int.abs_eq_natAbs]
    exact_mod_cast precise.le
  generalize TiesToEven.roundTiesEven (mantissa * 2 ^ exponent : ℚ) = n at near ⊢
  obtain ⟨low, high⟩ := abs_le.mp half
  have below : (n : ℚ) < 2 ^ 53 := by linarith [near.above]
  have above : -(2 : ℚ) ^ 53 < n := by linarith [near.below]
  have below' : n < 2 ^ 53 := by exact_mod_cast below
  have above' : -2 ^ 53 < n := by exact_mod_cast above
  omega

def roundTiesEven : Binary64 → Binary64
  | finite mantissa exponent precise low high =>
    if whole : 0 ≤ exponent then finite mantissa exponent precise low high
    else ofInt (TiesToEven.roundTiesEven (mantissa * 2 ^ exponent : ℚ)) (roundedPrecise precise whole)
  | other => other

def less : Binary64 → Binary64 → Bool
  | finite m e .., finite m' e' .. => (m * 2 ^ e : ℚ) < m' * 2 ^ e'
  | infinite negative, finite .. => negative
  | finite .., infinite negative => !negative
  | infinite negative, infinite negative' => negative && !negative'
  | _, _ => false

def asI64 : Binary64 → Int
  | finite mantissa exponent .. =>
    max (-2 ^ 63) (min (2 ^ 63 - 1)
      (if 0 ≤ exponent then mantissa * 2 ^ exponent.toNat else mantissa.tdiv (2 ^ (-exponent).toNat)))
  | infinite negative => if negative then -2 ^ 63 else 2 ^ 63 - 1
  | nan => 0

theorem finiteValue {x : Binary64} : x.isFinite = true ↔ ∃ v, x.value = some v := by
  cases x <;> simp [isFinite, value]

theorem ofIntValue (n : Int) (precise : n.natAbs < 2 ^ 53) : (ofInt n precise).value = some (n : ℚ) := by
  simp only [ofInt, value, zpow_zero, mul_one]

theorem timesPowerValue {k : Nat} {x : Binary64} {v : ℚ} (known : x.value = some v) :
    (x.timesPower k).value = some (v * 2 ^ k) ∨
      x.timesPower k = infinite true ∧ v * 2 ^ k ≤ -2 ^ (1024 : Int) ∨
      x.timesPower k = infinite false ∧ 2 ^ (1024 : Int) ≤ v * 2 ^ k := by
  cases x with
  | infinite => cases known
  | nan => cases known
  | finite mantissa exponent precise low high =>
    have product : v * 2 ^ k = mantissa * 2 ^ (exponent + k) := by
      rw [← Option.some.inj known, zpow_add₀ two_ne_zero, zpow_natCast, mul_assoc]
    rw [product]
    simp only [timesPower]
    by_cases room : exponent + k ≤ 971
    · rw [dif_pos room]
      exact .inl rfl
    rw [dif_neg room]
    generalize shift : (exponent + k - 971).toNat = d
    have shifted : (mantissa * 2 ^ (exponent + k) : ℚ) = (mantissa * 2 ^ d : Int) * 2 ^ (971 : Int) := by
      rw [show exponent + (k : Int) = d + 971 by omega, zpow_add₀ two_ne_zero, zpow_natCast, Int.cast_mul, Int.cast_pow,
        Int.cast_ofNat, mul_assoc]
    have sign : mantissa < 0 ↔ mantissa * 2 ^ d < 0 := by
      have power : (0 : Int) < 2 ^ d := by positivity
      constructor
      · exact fun negative => mul_neg_of_neg_of_pos negative power
      · exact fun negative => neg_of_mul_neg_left negative power.le
    rw [shifted]
    by_cases short : (mantissa * 2 ^ d).natAbs < 2 ^ 53
    · rw [dif_pos short]
      exact .inl rfl
    have wide : (2 : ℚ) ^ (1024 : Int) = 2 ^ 53 * 2 ^ (971 : Int) := by
      rw [show (1024 : Int) = (53 : Nat) + 971 by norm_num, zpow_add₀ two_ne_zero, zpow_natCast]
    have positive : (0 : ℚ) < 2 ^ (971 : Int) := by positivity
    rw [dif_neg short, wide, ← neg_mul]
    refine .inr ?_
    by_cases negative : mantissa < 0
    · have below := sign.mp negative
      have beyond : ((mantissa * 2 ^ d : Int) : ℚ) ≤ -2 ^ 53 := by
        exact_mod_cast show mantissa * 2 ^ d ≤ -2 ^ 53 by omega
      exact .inl ⟨by rw [decide_eq_true negative], mul_le_mul_of_nonneg_right beyond positive.le⟩
    · have above := mt sign.mpr negative
      have beyond : (2 : ℚ) ^ 53 ≤ (mantissa * 2 ^ d : Int) := by
        exact_mod_cast show 2 ^ 53 ≤ mantissa * 2 ^ d by omega
      exact .inr ⟨by rw [decide_eq_false negative], mul_le_mul_of_nonneg_right beyond positive.le⟩

theorem roundValue {x : Binary64} {v : ℚ} (known : x.value = some v) :
    x.roundTiesEven.value = some (TiesToEven.roundTiesEven v : ℚ) := by
  cases x with
  | infinite => cases known
  | nan => cases known
  | finite mantissa exponent precise low high =>
    cases Option.some.inj known
    simp only [roundTiesEven]
    by_cases whole : 0 ≤ exponent
    · obtain ⟨k, rfl⟩ := Int.eq_ofNat_of_zero_le whole
      have integral : (mantissa * 2 ^ (k : Int) : ℚ) = (mantissa * 2 ^ k : Int) := by
        rw [zpow_natCast]
        push_cast
        rfl
      rw [dif_pos whole, integral, roundIs.mpr (nearestInt _)]
      exact congrArg some integral
    · rw [dif_neg whole]
      exact ofIntValue _ _

theorem lessValue {x y : Binary64} {v w : ℚ} (left : x.value = some v) (right : y.value = some w) :
    x.less y = decide (v < w) := by
  cases x with
  | infinite => cases left
  | nan => cases left
  | finite =>
    cases y with
    | infinite => cases right
    | nan => cases right
    | finite =>
      cases Option.some.inj left
      cases Option.some.inj right
      rfl

theorem asI64Value {x : Binary64} {n : Int} (known : x.value = some (n : ℚ)) (low : -2 ^ 63 ≤ n) (high : n < 2 ^ 63) :
    x.asI64 = n := by
  cases x with
  | infinite => cases known
  | nan => cases known
  | finite mantissa exponent precise =>
    have same := Option.some.inj known
    have cut : (if 0 ≤ exponent then mantissa * 2 ^ exponent.toNat else mantissa.tdiv (2 ^ (-exponent).toNat)) = n := by
      split_ifs with whole
      · obtain ⟨k, rfl⟩ := Int.eq_ofNat_of_zero_le whole
        rw [zpow_natCast] at same
        exact_mod_cast same
      · obtain ⟨k, negated⟩ := Int.eq_ofNat_of_zero_le (show 0 ≤ -exponent by omega)
        obtain rfl : exponent = -k := by omega
        have integral : (mantissa : ℚ) = (n * 2 ^ k : Int) := by
          rw [zpow_neg, zpow_natCast, ← div_eq_mul_inv, div_eq_iff (by positivity)] at same
          push_cast
          exact same
        rw [show (- -(k : Int)).toNat = k by omega, Int.cast_inj.mp integral]
        exact Int.mul_tdiv_cancel _ (by positivity)
    simp only [asI64, cut]
    omega

end Binary64

end Iamf
