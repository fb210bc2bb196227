import Mathlib.Algebra.Order.Field.Power
import Mathlib.Algebra.Order.Field.Rat
import Mathlib.Data.Nat.Cast.Order.Field
import Mathlib.Data.Nat.Log
import Mathlib.Tactic.FieldSimp
import Mathlib.Tactic.GCongr
import Mathlib.Tactic.Linarith
import Mathlib.Tactic.NormNum
import Mathlib.Tactic.Positivity
import Mathlib.Tactic.Ring
import RingCache.Decimal.Binary64

/-!
Rounding to doubles. A ratio below the middle between the greatest double and the next power of two
rounds to a finite double, and a natural number to one that is above it by half a unit of its last
place at most. Hence a product overflows only if its exact factors nearly do.
-/

namespace RingCache

theorem zpow_below (base : ℚ) {exponent : Int} (below : exponent < 0) :
    base ^ exponent = (base ^ (-exponent).toNat)⁻¹ := by
  have split : exponent = -((-exponent).toNat : Int) := by omega
  conv_lhs => rw [split, zpow_neg, zpow_natCast]

theorem zpow_above (base : ℚ) {exponent : Int} (above : ¬ exponent < 0) :
    base ^ exponent = base ^ exponent.toNat := by
  have split : exponent = (exponent.toNat : Int) := by omega
  conv_lhs => rw [split, zpow_natCast]

namespace Binary64

/-- Where a ratio rounds to infinity: half a unit above the greatest double. -/
def overflow : Nat := (2 ^ 54 - 1) * 2 ^ 970

theorem middle_cast (exponent : Nat) : (((2 ^ 54 - 1) * 2 ^ exponent : Nat) : ℚ) =
    (2 ^ 53 - 1 / 2) * 2 ^ ((exponent : Int) + 1) := by
  rw [zpow_add_one₀ (by norm_num), zpow_natCast]
  push_cast
  ring

theorem overflow_eq : (overflow : ℚ) = (2 ^ 53 - 1 / 2) * 2 ^ (971 : Int) := middle_cast 970

theorem ratio_value (significand : Nat) (power : Int) :
    0 < (ratio significand power).2 ∧
      ((ratio significand power).1 : ℚ) / (ratio significand power).2 =
        significand * 2 ^ power := by
  rw [ratio]
  split
  · next below =>
      refine ⟨Nat.pow_pos (by decide), ?_⟩
      rw [zpow_below 2 below, ← div_eq_mul_inv]
      norm_num
  · next above =>
      refine ⟨Nat.one_pos, ?_⟩
      rw [zpow_above 2 above]
      norm_num

theorem scaled_value (num den : Nat) (positive : 0 < den) (power : Int) :
    0 < (scaled num den power).2 ∧
      ((scaled num den power).1 : ℚ) / (scaled num den power).2 = num / den / 2 ^ power := by
  have divisor : (den : ℚ) ≠ 0 := Nat.cast_ne_zero.mpr positive.ne'
  rw [scaled]
  split
  · next below =>
      refine ⟨positive, ?_⟩
      rw [zpow_below 2 below, div_inv_eq_mul]
      push_cast [Nat.pow_eq]
      ring
  · next above =>
      refine ⟨Nat.mul_pos positive (Nat.pow_pos (by decide)), ?_⟩
      rw [zpow_above 2 above, div_div]
      push_cast [Nat.pow_eq]
      rfl

theorem roundDiv_le (num den : Nat) (positive : 0 < den) :
    (roundDiv num den : ℚ) ≤ num / den + 1 / 2 := by
  have divisor : (0 : ℚ) < den := Nat.cast_pos.mpr positive
  have whole : (num : ℚ) = den * (num / den : Nat) + (num % den : Nat) := by
    exact_mod_cast (Nat.div_add_mod num den).symm
  have exact : (num : ℚ) / den = (num / den : Nat) + (num % den : Nat) / den := by
    conv_lhs => rw [whole]
    field_simp
  rw [roundDiv, exact]
  split
  · next up =>
      simp only [gt_iff_lt, Bool.or_eq_true, decide_eq_true_eq, Bool.and_eq_true] at up
      have half : den ≤ 2 * (num % den) := by omega
      have share : (1 : ℚ) / 2 ≤ (num % den : Nat) / den := by
        rw [div_le_div_iff₀ two_pos divisor]
        exact_mod_cast (by omega : 1 * den ≤ num % den * 2)
      push_cast
      linarith
  · have share : (0 : ℚ) ≤ (num % den : Nat) / den := by positivity
    linarith

theorem log2_bounds (n : Nat) (positive : 0 < n) :
    (2 : ℚ) ^ (n.log2 : Int) ≤ n ∧ (n : ℚ) < 2 ^ ((n.log2 : Int) + 1) := by
  have low := Nat.log2_self_le positive.ne'
  have high := Nat.lt_log2_self (n := n)
  constructor
  · rw [zpow_natCast]
    exact_mod_cast low
  · have next : ((n.log2 : Int) + 1) = ((n.log2 + 1 : Nat) : Int) := by push_cast; rfl
    rw [next, zpow_natCast]
    exact_mod_cast high

/-- A power beyond that of the greatest doubles is chosen for ratios that are as large only. -/
theorem le_of_powerFor (num den : Nat) (nonzero : 0 < num) (positive : 0 < den)
    (beyond : 972 ≤ powerFor num den) : (2 : ℚ) ^ (1024 : Int) ≤ num / den := by
  have divisor : (0 : ℚ) < den := Nat.cast_pos.mpr positive
  have high : (2 : ℚ) ^ (1024 : Int) ≤ 2 ^ (52 + powerFor num den) :=
    zpow_le_zpow_right₀ (by norm_num) (by omega)
  refine high.trans ?_
  have numBounds := log2_bounds num nonzero
  have denBounds := log2_bounds den positive
  rw [powerFor] at beyond ⊢
  simp only [leastPower] at beyond ⊢
  generalize guessed : (num.log2 : Int) - den.log2 - 52 = guess at beyond ⊢
  have value := scaled_value num den positive guess
  split at beyond
  -- If the guess is too great, the powers of both numbers bound the ratio from below.
  · next small =>
      rw [if_pos small, max_eq_right (by omega)]
      rw [le_div_iff₀ divisor]
      calc (2 : ℚ) ^ (52 + (guess - 1)) * den
          ≤ 2 ^ (52 + (guess - 1)) * 2 ^ ((den.log2 : Int) + 1) := by gcongr; exact denBounds.2.le
        _ = 2 ^ (num.log2 : Int) := by
            rw [← zpow_add₀ (by norm_num)]
            congr 1
            omega
        _ ≤ num := numBounds.1
  · next large =>
      rw [if_neg large, max_eq_right (by omega)]
      have quotient :
          ((2 ^ 52 : Nat) : ℚ) ≤ (scaled num den guess).1 / (scaled num den guess).2 := by
        refine le_trans (Nat.cast_le.mpr (Nat.le_of_not_lt large)) Nat.cast_div_le
      rw [value.2, le_div_iff₀ (by positivity)] at quotient
      rw [zpow_add₀ (by norm_num)]
      exact_mod_cast quotient

theorem ofRatio_finite (negative : Bool) (num den : Nat) (positive : 0 < den)
    (small : (num : ℚ) / den < overflow) :
    ∃ significand power, ofRatio negative num den = .finite negative significand power := by
  rw [ofRatio]
  split
  · exact ⟨0, leastPower, rfl⟩
  next nonzero =>
  have below : powerFor num den ≤ 971 := by
    by_contra beyond
    have large := le_of_powerFor num den (Nat.pos_of_ne_zero nonzero) positive (by omega)
    have power : (2 : ℚ) ^ (1024 : Int) = 2 ^ 53 * 2 ^ (971 : Int) := by
      rw [← zpow_natCast, ← zpow_add₀ (by norm_num)]
      rfl
    have less : (overflow : ℚ) < 2 ^ (1024 : Int) := by
      rw [power, overflow_eq]
      exact mul_lt_mul_of_pos_right (by norm_num) (by positivity)
    linarith
  have value := scaled_value num den positive (powerFor num den)
  have rounded := roundDiv_le (scaled num den (powerFor num den)).1 _ value.1
  rw [value.2] at rounded
  dsimp only
  split
  · next carry =>
      -- A carry at the greatest power needs a ratio that overflows.
      have lower : powerFor num den ≠ 971 := by
        intro greatest
        have full : ((Nat.pow 2 53 : Nat) : ℚ) = 2 ^ 53 := by norm_num
        rw [carry, greatest, full, ← sub_le_iff_le_add, le_div_iff₀ (by positivity)] at rounded
        exact absurd small (not_lt_of_ge (overflow_eq.trans_le rounded))
      rw [if_neg (by omega)]
      exact ⟨_, _, rfl⟩
  · rw [if_neg (by omega)]
    exact ⟨_, _, rfl⟩

theorem ofRatio_value (negative : Bool) (num den : Nat) (nonzero : 0 < num) (positive : 0 < den)
    (low : powerFor num den ≤ 970) :
    ∃ significand power, ofRatio negative num den = .finite negative significand power ∧
      (significand : ℚ) * 2 ^ power ≤ num / den + 2 ^ powerFor num den / 2 := by
  have value := scaled_value num den positive (powerFor num den)
  have rounded := roundDiv_le (scaled num den (powerFor num den)).1 _ value.1
  have unit : (0 : ℚ) < 2 ^ powerFor num den := by positivity
  have near : (roundDiv (scaled num den (powerFor num den)).1
      (scaled num den (powerFor num den)).2 : ℚ) * 2 ^ powerFor num den ≤
        num / den + 2 ^ powerFor num den / 2 := by
    rw [value.2] at rounded
    calc _ ≤ ((num : ℚ) / den / 2 ^ powerFor num den + 1 / 2) * 2 ^ powerFor num den := by gcongr
      _ = _ := by field_simp
  rw [ofRatio, if_neg nonzero.ne']
  dsimp only
  split
  · next carry =>
      rw [if_neg (by omega)]
      refine ⟨_, _, rfl, ?_⟩
      have full : ((Nat.pow 2 52 : Nat) : ℚ) * 2 ^ (powerFor num den + 1) =
          (Nat.pow 2 53 : Nat) * 2 ^ powerFor num den := by
        rw [zpow_add_one₀ (by norm_num)]
        push_cast [Nat.pow_eq]
        ring
      rw [full, ← carry]
      exact near
  · rw [if_neg (by omega)]
    exact ⟨_, _, rfl, near⟩

theorem powerFor_nat (n : Nat) (positive : 0 < n) : powerFor n 1 = (n.log2 : Int) - 52 := by
  have bounds := log2_bounds n positive
  have value := scaled_value n 1 Nat.one_pos ((n.log2 : Int) - 52)
  have quotient : (2 : ℚ) ^ 52 ≤ (scaled n 1 ((n.log2 : Int) - 52)).1 /
      (scaled n 1 ((n.log2 : Int) - 52)).2 := by
    rw [value.2, Nat.cast_one, div_one, le_div_iff₀ (by positivity), ← zpow_natCast,
      ← zpow_add₀ (by norm_num)]
    refine le_trans (le_of_eq ?_) bounds.1
    congr 1
    omega
  have full : ¬ (scaled n 1 ((n.log2 : Int) - 52)).1 / (scaled n 1 ((n.log2 : Int) - 52)).2 <
      Nat.pow 2 52 := by
    rw [le_div_iff₀ (Nat.cast_pos.mpr value.1)] at quotient
    rw [Nat.not_lt, Nat.le_div_iff_mul_le value.1]
    exact_mod_cast quotient
  have one : (1 : Nat).log2 = 0 := rfl
  simp only [powerFor, leastPower, one, Nat.cast_zero, sub_zero, if_neg full]
  omega

/-- A natural number rounds to a double that is above it by half a unit at most. -/
theorem ofNat_value (n : Nat) (positive : 0 < n) (short : n.log2 ≤ 1000) :
    ∃ significand power, ofNat n = .finite false significand power ∧
      (significand : ℚ) * 2 ^ power ≤ n + 2 ^ n.log2 / 2 ^ 53 := by
  have exponent := powerFor_nat n positive
  obtain ⟨significand, power, found, value⟩ :=
    ofRatio_value false n 1 positive Nat.one_pos (by omega)
  refine ⟨significand, power, found, value.trans (le_of_eq ?_)⟩
  rw [exponent, zpow_sub₀ (by norm_num), Nat.cast_one, div_one, zpow_natCast]
  norm_num
  ring

/-- A product does not overflow if its factors stay below the overflow. -/
theorem mul_finite (m n : Nat) (p q : Int)
    (small : (m : ℚ) * 2 ^ p * (n * 2 ^ q) < overflow) :
    ∃ significand power, mul (.finite false m p) (.finite false n q) =
      .finite false significand power := by
  have first := ratio_value m p
  have second := ratio_value n q
  have product : mul (.finite false m p) (.finite false n q) = ofRatio false
      ((ratio m p).1 * (ratio n q).1) ((ratio m p).2 * (ratio n q).2) := rfl
  rw [product]
  apply ofRatio_finite false _ _ (Nat.mul_pos first.1 second.1)
  rwa [Nat.cast_mul, Nat.cast_mul, mul_div_mul_comm, first.2, second.2]

/-- The middle between the two greatest doubles. -/
def topGap : Nat := (2 ^ 54 - 3) * 2 ^ 970

def greatestFactor (exponent : Nat) : Nat := min (10 ^ 17) (topGap / 10 ^ exponent)

def Clear (exponent : Nat) : Bool :=
  match ofDecimal false 1 exponent with
  | .finite false significand power =>
      let factor := greatestFactor exponent
      0 < factor && decide ((factor * 2 ^ 53 + 2 ^ factor.log2) * (ratio significand power).1 <
        overflow * 2 ^ 53 * (ratio significand power).2)
  | _ => false

theorem powers_clear : ∀ exponent < 309, Clear exponent = true := by decide +kernel

/-- A number of 17 digits rounds to a double that is above no greater number by more than half a
unit of that. -/
theorem ofNat_le (n factor : Nat) (positive : 0 < n) (short : n ≤ 10 ^ 17) (fits : n ≤ factor) :
    ∃ significand power, ofNat n = .finite false significand power ∧
      (significand : ℚ) * 2 ^ power ≤ (factor * 2 ^ 53 + 2 ^ factor.log2 : Nat) / 2 ^ 53 := by
  have log : n.log2 ≤ factor.log2 := by
    rw [Nat.log2_eq_log_two, Nat.log2_eq_log_two]
    exact Nat.log_mono_right fits
  have narrow : n.log2 ≤ 1000 := by
    have : n.log2 < 57 := (Nat.log2_lt positive.ne').mpr (by omega)
    omega
  obtain ⟨significand, power, rounded, value⟩ := ofNat_value n positive narrow
  refine ⟨significand, power, rounded, value.trans ?_⟩
  rw [Nat.cast_add, Nat.cast_mul, add_div, Nat.cast_pow, Nat.cast_pow, Nat.cast_ofNat,
    mul_div_cancel_right₀ _ (by positivity)]
  gcongr
  norm_num

theorem mul_power_finite (n exponent : Nat) (positive : 0 < n) (short : n ≤ 10 ^ 17)
    (inside : exponent < 309) (below : n * 10 ^ exponent ≤ topGap) :
    ∃ significand power, mul (ofNat n) (ofDecimal false 1 exponent) =
      .finite false significand power := by
  have clear := powers_clear exponent inside
  rw [Clear] at clear
  split at clear
  · next significand power found =>
      have fits : n ≤ greatestFactor exponent :=
        le_min short ((Nat.le_div_iff_mul_le (Nat.pow_pos (by decide))).mpr below)
      clear below
      generalize greatestFactor exponent = factor at clear fits
      simp only [Bool.and_eq_true, decide_eq_true_eq] at clear
      obtain ⟨m, p, rounded, grown⟩ := ofNat_le n factor positive short fits
      have scale := ratio_value significand power
      rw [rounded, found]
      apply mul_finite
      generalize overflow = limit at clear ⊢
      have divisor : (0 : ℚ) < (ratio significand power).2 := Nat.cast_pos.mpr scale.1
      rw [← scale.2, ← mul_div_assoc, div_lt_iff₀ divisor]
      calc (m : ℚ) * 2 ^ p * (ratio significand power).1
          ≤ (factor * 2 ^ 53 + 2 ^ factor.log2 : Nat) / 2 ^ 53 * (ratio significand power).1 := by
            gcongr
        _ = ((factor * 2 ^ 53 + 2 ^ factor.log2) * (ratio significand power).1 : Nat) / 2 ^ 53 := by
            push_cast
            ring
        _ < (limit * 2 ^ 53 * (ratio significand power).2 : Nat) / 2 ^ 53 :=
            div_lt_div_of_pos_right (Nat.cast_lt.mpr clear.2) (by positivity)
        _ = limit * (ratio significand power).2 := by
            push_cast
            ring
  · cases clear

end Binary64

end RingCache
