import RingCache.Decimal.Shortest
import RingCache.Proofs.Rounding

/-!
The digits of a double. Seventeen digits suffice for every double, so the search ends on a grid
that has a point among the reals that round to the value: the digits are fewer than eighteen and
stand for no number above half a unit over the value.
-/

namespace RingCache.Decimal

def pointValue (n : Nat) (exponent : Int) : ℚ := n * 10 ^ exponent

theorem onGrid_value (n : Nat) (exponent : Int) (unit : Nat) :
    (onGrid n exponent (-exponent).toNat unit : ℚ) =
      pointValue n exponent * unit * 10 ^ (-exponent).toNat := by
  have scale : ((10 : ℚ) ^ (exponent + (-exponent).toNat).toNat) =
      10 ^ exponent * 10 ^ (-exponent).toNat := by
    rw [← zpow_natCast, ← zpow_natCast, ← zpow_add₀ (by norm_num)]
    congr 1
    omega
  rw [onGrid, pointValue]
  push_cast [Nat.pow_eq]
  rw [scale]
  ring

namespace Interval

variable (i : Interval)

def real (units : Nat) : ℚ := units / i.unit

theorem onGrid_le_iff (positive : 0 < i.unit) (n : Nat) (exponent : Int) (units : Nat) :
    onGrid n exponent (-exponent).toNat i.unit ≤ units * Nat.pow 10 (-exponent).toNat ↔
      pointValue n exponent ≤ i.real units := by
  have divisor : (0 : ℚ) < i.unit := Nat.cast_pos.mpr positive
  rw [← Nat.cast_le (α := ℚ), onGrid_value, real, le_div_iff₀ divisor, Nat.cast_mul, Nat.pow_eq,
    Nat.cast_pow, Nat.cast_ofNat, mul_le_mul_iff_left₀ (by positivity)]

theorem le_onGrid_iff (positive : 0 < i.unit) (n : Nat) (exponent : Int) (units : Nat) :
    units * Nat.pow 10 (-exponent).toNat ≤ onGrid n exponent (-exponent).toNat i.unit ↔
      i.real units ≤ pointValue n exponent := by
  have divisor : (0 : ℚ) < i.unit := Nat.cast_pos.mpr positive
  rw [← Nat.cast_le (α := ℚ), onGrid_value, real, div_le_iff₀ divisor, Nat.cast_mul, Nat.pow_eq,
    Nat.cast_pow, Nat.cast_ofNat, mul_le_mul_iff_left₀ (by positivity)]

theorem holds_le (positive : 0 < i.unit) (n : Nat) (exponent : Int)
    (held : i.holds n exponent (-exponent).toNat = true) :
    pointValue n exponent ≤ i.real i.high := by
  rw [← onGrid_le_iff i positive]
  rw [holds] at held
  split at held
  · simp only [Bool.and_eq_true, decide_eq_true_eq] at held
    exact held.2
  · simp only [Bool.and_eq_true, decide_eq_true_eq] at held
    exact held.2.le

/-- A grid point strictly inside reads back, whether or not the ends do. -/
theorem holds_inside (positive : 0 < i.unit) (n : Nat) (exponent : Int)
    (above : i.real i.low < pointValue n exponent) (below : pointValue n exponent < i.real i.high) :
    i.holds n exponent (-exponent).toNat = true := by
  have low : i.low * Nat.pow 10 (-exponent).toNat < onGrid n exponent (-exponent).toNat i.unit := by
    rw [← not_le, onGrid_le_iff i positive]
    exact not_le_of_gt above
  have high :
      onGrid n exponent (-exponent).toNat i.unit < i.high * Nat.pow 10 (-exponent).toNat := by
    rw [← not_le, le_onGrid_iff i positive]
    exact not_le_of_gt below
  rw [holds]
  split
  · rw [Bool.and_eq_true, decide_eq_true_eq, decide_eq_true_eq]
    exact ⟨low.le, high.le⟩
  · rw [Bool.and_eq_true, decide_eq_true_eq, decide_eq_true_eq]
    exact ⟨low, high⟩

def floor (exponent : Int) : Nat :=
  i.value * Nat.pow 10 (-exponent).toNat / onGrid 1 exponent (-exponent).toNat i.unit

theorem floor_bounds (positive : 0 < i.unit) (exponent : Int) :
    pointValue (i.floor exponent) exponent ≤ i.real i.value ∧
      i.real i.value < pointValue (i.floor exponent + 1) exponent := by
  have point (n : Nat) : onGrid n exponent (-exponent).toNat i.unit =
      n * onGrid 1 exponent (-exponent).toNat i.unit := by
    simp only [onGrid]
    ring
  have step : 0 < onGrid 1 exponent (-exponent).toNat i.unit := by
    simp only [onGrid, Nat.pow_eq]
    positivity
  constructor
  · rw [← onGrid_le_iff i positive, point]
    exact Nat.div_mul_le_self _ _
  · rw [← not_le, ← onGrid_le_iff i positive, point, not_le]
    exact (Nat.div_lt_iff_lt_mul step).mp (Nat.lt_succ_self _)

theorem onGrid?_eq (exponent : Int) : i.onGrid? exponent =
    match i.holds (i.floor exponent) exponent (-exponent).toNat && i.floor exponent != 0,
      i.holds (i.floor exponent + 1) exponent (-exponent).toNat with
    | true, true =>
        let left := i.value * Nat.pow 10 (-exponent).toNat -
          i.floor exponent * onGrid 1 exponent (-exponent).toNat i.unit
        let right := (i.floor exponent + 1) * onGrid 1 exponent (-exponent).toNat i.unit -
          i.value * Nat.pow 10 (-exponent).toNat
        some (if right < left || (right = left && i.floor exponent % 2 = 1) then
          i.floor exponent + 1 else i.floor exponent)
    | true, false => some (i.floor exponent)
    | false, true => some (i.floor exponent + 1)
    | false, false => none := rfl

theorem onGrid?_some (exponent : Int) (n : Nat) (found : i.onGrid? exponent = some n) :
    0 < n ∧ n ≤ i.floor exponent + 1 ∧ i.holds n exponent (-exponent).toNat = true := by
  rw [onGrid?_eq] at found
  split at found
  · next lower upper =>
      simp only [Bool.and_eq_true, bne_iff_ne] at lower
      rw [← Option.some.inj found]
      split
      · exact ⟨Nat.succ_pos _, le_rfl, upper⟩
      · exact ⟨Nat.pos_of_ne_zero lower.2, Nat.le_succ _, lower.1⟩
  · next lower upper =>
      simp only [Bool.and_eq_true, bne_iff_ne] at lower
      rw [← Option.some.inj found]
      exact ⟨Nat.pos_of_ne_zero lower.2, Nat.le_succ _, lower.1⟩
  · next lower upper =>
      rw [← Option.some.inj found]
      exact ⟨Nat.succ_pos _, le_rfl, upper⟩
  · contradiction

theorem onGrid?_isSome (exponent : Int)
    (either :
      (i.floor exponent ≠ 0 ∧ i.holds (i.floor exponent) exponent (-exponent).toNat = true) ∨
      i.holds (i.floor exponent + 1) exponent (-exponent).toNat = true) :
    (i.onGrid? exponent).isSome = true := by
  rw [onGrid?_eq]
  split
  · rfl
  · rfl
  · rfl
  · next lower upper =>
      rcases either with ⟨nonzero, held⟩ | held
      · simp [held, nonzero] at lower
      · simp [held] at upper

/-- The search answers with the first grid that has a point, down to the last one tried. -/
theorem search_found (exponent : Int) (left : Nat)
    (last : (i.onGrid? (exponent - left)).isSome = true) :
    ∃ n place, i.search exponent (left + 1) = (n, place) ∧ i.onGrid? place = some n ∧
      exponent - left ≤ place ∧ place ≤ exponent := by
  induction left generalizing exponent with
  | zero =>
      obtain ⟨n, found⟩ := Option.isSome_iff_exists.mp last
      rw [Nat.cast_zero, sub_zero] at found
      exact ⟨n, exponent, by rw [search, found], found, by omega, le_rfl⟩
  | succ left ih =>
      rw [search]
      cases found : i.onGrid? exponent with
      | some n => exact ⟨n, exponent, rfl, found, by omega, le_rfl⟩
      | none =>
          have below : exponent - (left + 1 : Nat) = exponent - 1 - left := by push_cast; ring
          obtain ⟨n, place, searched, there, low, high⟩ := ih (exponent - 1) (below ▸ last)
          exact ⟨n, place, searched, there, by omega, by omega⟩

end Interval

theorem toDigits_length_bounds (n : Nat) (positive : 0 < n) :
    10 ^ ((Nat.toDigits 10 n).length - 1) ≤ n ∧ n < 10 ^ (Nat.toDigits 10 n).length := by
  have least := Nat.length_toDigits_pos (b := 10) (n := n)
  constructor
  · rcases Nat.eq_or_lt_of_le least with one | more
    · rw [← one]
      exact positive
    · by_contra small
      have := (Nat.length_toDigits_le_iff (b := 10) (n := n) (by decide)
        (Nat.sub_pos_of_lt more)).mpr (Nat.lt_of_not_le small)
      omega
  · exact (Nat.length_toDigits_le_iff (by decide) least).mp le_rfl

theorem reaches_iff (num den : Nat) (positive : 0 < den) (guess : Int) :
    (if guess < 0 then num * Nat.pow 10 (-guess).toNat ≥ den
      else num ≥ den * Nat.pow 10 guess.toNat) ↔ (10 : ℚ) ^ guess ≤ num / den := by
  have divisor : (0 : ℚ) < den := Nat.cast_pos.mpr positive
  rw [le_div_iff₀ divisor]
  split
  · next below =>
      rw [zpow_below 10 below, inv_mul_le_iff₀ (by positivity), ge_iff_le, ← Nat.cast_le (α := ℚ)]
      push_cast [Nat.pow_eq]
      rw [mul_comm]
  · next above =>
      rw [zpow_above 10 above, ge_iff_le, ← Nat.cast_le (α := ℚ)]
      push_cast [Nat.pow_eq]
      rw [mul_comm]

theorem leading_bounds (num den : Nat) (nonzero : 0 < num) (positive : 0 < den) :
    (10 : ℚ) ^ leading num den ≤ num / den ∧ (num : ℚ) / den < 10 ^ (leading num den + 1) := by
  have divisor : (0 : ℚ) < den := Nat.cast_pos.mpr positive
  have ten : (10 : ℚ) ≠ 0 := by norm_num
  have numBounds := toDigits_length_bounds num nonzero
  have denBounds := toDigits_length_bounds den positive
  have numSome := Nat.length_toDigits_pos (b := 10) (n := num)
  have denSome := Nat.length_toDigits_pos (b := 10) (n := den)
  have reached := reaches_iff num den positive
    ((Nat.toDigits 10 num).length - (Nat.toDigits 10 den).length)
  rw [leading]
  simp only [reached]
  generalize (Nat.toDigits 10 num).length = a at *
  generalize (Nat.toDigits 10 den).length = b at *
  have numLow : (10 : ℚ) ^ ((a : Int) - 1) ≤ num := by
    rw [show (a : Int) - 1 = ((a - 1 : Nat) : Int) by omega, zpow_natCast]
    exact_mod_cast numBounds.1
  have numHigh : (num : ℚ) < 10 ^ (a : Int) := by
    rw [zpow_natCast]
    exact_mod_cast numBounds.2
  have denLow : (10 : ℚ) ^ ((b : Int) - 1) ≤ den := by
    rw [show (b : Int) - 1 = ((b - 1 : Nat) : Int) by omega, zpow_natCast]
    exact_mod_cast denBounds.1
  have denHigh : (den : ℚ) < 10 ^ (b : Int) := by
    rw [zpow_natCast]
    exact_mod_cast denBounds.2
  split
  · next reaches =>
      refine ⟨reaches, ?_⟩
      rw [div_lt_iff₀ divisor]
      calc (num : ℚ) < 10 ^ (a : Int) := numHigh
        _ = 10 ^ ((a : Int) - b + 1) * 10 ^ ((b : Int) - 1) := by
            rw [← zpow_add₀ ten]
            congr 1
            ring
        _ ≤ 10 ^ ((a : Int) - b + 1) * den := by gcongr
  · next short =>
      rw [sub_add_cancel]
      refine ⟨?_, lt_of_not_ge short⟩
      rw [le_div_iff₀ divisor]
      calc (10 : ℚ) ^ ((a : Int) - b - 1) * den ≤ 10 ^ ((a : Int) - b - 1) * 10 ^ (b : Int) := by
            gcongr
        _ = 10 ^ ((a : Int) - 1) := by
            rw [← zpow_add₀ ten]
            congr 1
            ring
        _ ≤ num := numLow

section

variable (significand : Nat) (power : Int)

theorem interval_unit : 0 < (interval significand power).unit := by
  simp only [interval, Nat.pow_eq]
  split <;> positivity

/-- Units of the interval are quarters of the last place. -/
theorem interval_real (quarters : Nat) :
    (interval significand power).real
        (quarters * if power < 0 then 1 else Nat.pow 2 power.toNat) = quarters / 4 * 2 ^ power := by
  simp only [Interval.real, interval]
  split
  · next below =>
      rw [zpow_below 2 below]
      push_cast [Nat.pow_eq]
      field_simp
  · next above =>
      rw [zpow_above 2 above]
      push_cast [Nat.pow_eq]
      ring

theorem interval_value : (interval significand power).real (interval significand power).value =
    significand * 2 ^ power := by
  have value : (interval significand power).value =
      4 * significand * if power < 0 then 1 else Nat.pow 2 power.toNat := rfl
  rw [value, interval_real]
  push_cast
  ring

theorem interval_high : (interval significand power).real (interval significand power).high =
    significand * 2 ^ power + 2 ^ power / 2 := by
  have high : (interval significand power).high =
      (4 * significand + 2) * if power < 0 then 1 else Nat.pow 2 power.toNat := rfl
  rw [high, interval_real]
  push_cast
  ring

variable (positive : 0 < significand)

include positive in
/-- Below a power of two the interval ends earlier. -/
theorem interval_low (wide : significand ≠ Nat.pow 2 52) :
    (interval significand power).real (interval significand power).low =
      significand * 2 ^ power - 2 ^ power / 2 := by
  have low : (interval significand power).low =
      (4 * significand - 2) * if power < 0 then 1 else Nat.pow 2 power.toNat := by
    simp only [interval, decide_eq_false wide, Bool.false_and, Bool.false_eq_true, if_false]
  rw [low, interval_real, Nat.cast_sub (by omega)]
  push_cast
  ring

include positive in
theorem interval_low_lt : (interval significand power).real (interval significand power).low <
    significand * 2 ^ power := by
  rw [← interval_value, Interval.real, Interval.real]
  have unit : (0 : ℚ) < (interval significand power).unit :=
    Nat.cast_pos.mpr (interval_unit significand power)
  apply div_lt_div_of_pos_right _ unit
  rw [Nat.cast_lt]
  simp only [interval]
  apply Nat.mul_lt_mul_of_pos_right _ (by split <;> simp)
  split <;> omega

include positive in
/-- A grid that divides the value into `10 ^ 16` steps or more has a point in the interval. -/
theorem onGrid?_interval (exponent : Int) (small : significand < 2 ^ 53)
    (fine : (10 : ℚ) ^ exponent * 10 ^ 16 ≤ significand * 2 ^ power) :
    ((interval significand power).onGrid? exponent).isSome = true := by
  have unit := interval_unit significand power
  have bounds := (interval significand power).floor_bounds unit exponent
  have lower := interval_low_lt significand power positive
  have inside (n : Nat) := (interval significand power).holds_inside unit n exponent
  have step : (0 : ℚ) < 10 ^ exponent := by positivity
  have place : (0 : ℚ) < 2 ^ power := by positivity
  apply Interval.onGrid?_isSome
  generalize (interval significand power).floor exponent = below at bounds ⊢
  simp only [interval_value, interval_high, pointValue, Nat.cast_add, Nat.cast_one] at bounds inside
  by_cases narrow : significand = Nat.pow 2 52
  · -- The next grid point is less than half a unit of the last place away.
    have value : (significand : ℚ) = 2 ^ 52 := by rw [narrow]; norm_num
    right
    apply inside
    · push_cast
      linarith [bounds.2]
    · push_cast
      rw [value] at fine bounds ⊢
      nlinarith
  · have low := interval_low significand power positive narrow
    have value : (significand : ℚ) + 1 ≤ 2 ^ 53 := by exact_mod_cast small
    have width : (10 : ℚ) ^ exponent < 2 ^ power := by nlinarith
    rw [low] at inside
    -- The nearer neighbour is half a step away at most, and a step is shorter than a unit.
    by_cases near : (significand : ℚ) * 2 ^ power - below * 10 ^ exponent ≤ 10 ^ exponent / 2
    · left
      constructor
      · rintro rfl
        norm_num at bounds
        linarith
      · apply inside <;> linarith
    · right
      apply inside <;> push_cast <;> linarith

end

theorem strip_value (n : Nat) (exponent : Int) (fuel : Nat) (positive : 0 < n) :
    pointValue (strip n exponent fuel).digits (strip n exponent fuel).exponent =
        pointValue n exponent ∧
      0 < (strip n exponent fuel).digits ∧ (strip n exponent fuel).digits ≤ n ∧
      exponent ≤ (strip n exponent fuel).exponent := by
  induction fuel generalizing n exponent with
  | zero => exact ⟨rfl, positive, le_rfl, le_rfl⟩
  | succ fuel ih =>
      rw [strip]
      split
      · next tenfold =>
          have whole : n = n / 10 * 10 := by omega
          obtain ⟨value, left, fewer, higher⟩ := ih (n / 10) (exponent + 1) (by omega)
          refine ⟨value.trans ?_, left, by omega, by omega⟩
          rw [pointValue, pointValue, zpow_add_one₀ (by norm_num)]
          conv_rhs => rw [whole, Nat.cast_mul]
          push_cast
          ring
      · exact ⟨rfl, positive, le_rfl, le_rfl⟩

/-- The search for the digits ends within seventeen places of the value. -/
theorem shortest_found (significand : Nat) (power : Int) (positive : 0 < significand)
    (small : significand < 2 ^ 53) :
    ∃ n place, shortest significand power = strip n place 20 ∧
      (interval significand power).onGrid? place = some n ∧
      (significand : ℚ) * 2 ^ power < 10 ^ (place + 17) := by
  have unit := interval_unit significand power
  have value := interval_value significand power
  have filled : 0 < (interval significand power).value := by
    have real : (0 : ℚ) < (interval significand power).real (interval significand power).value := by
      rw [value]
      positivity
    by_contra zero
    rw [Nat.eq_zero_of_not_pos zero] at real
    simp [Interval.real] at real
  have order := leading_bounds (interval significand power).value (interval significand power).unit
    filled unit
  rw [show ((interval significand power).value : ℚ) / (interval significand power).unit =
    significand * 2 ^ power from value] at order
  have fine : (10 : ℚ) ^ (leading (interval significand power).value
      (interval significand power).unit - (16 : Nat)) * 10 ^ 16 ≤ significand * 2 ^ power := by
    rw [← zpow_natCast (10 : ℚ) 16, ← zpow_add₀ (by norm_num), sub_add_cancel]
    exact order.1
  obtain ⟨n, place, searched, found, low, high⟩ := (interval significand power).search_found _ 16
    (onGrid?_interval significand power positive _ small fine)
  refine ⟨n, place, ?_, found, ?_⟩
  · rw [shortest]
    simp only [searched]
  · exact order.2.trans_le (zpow_le_zpow_right₀ (by norm_num) (by push_cast at low; omega))

structure Fine (significand : Nat) (power : Int) (d : Digits) : Prop where
  positive : 0 < d.digits
  few : d.digits ≤ 10 ^ 17
  below : pointValue d.digits d.exponent ≤ significand * 2 ^ power + 2 ^ power / 2
  above : (significand : ℚ) * 2 ^ power < 10 ^ (d.exponent + 17)

theorem shortest_fine (significand : Nat) (power : Int) (positive : 0 < significand)
    (small : significand < 2 ^ 53) : Fine significand power (shortest significand power) := by
  have unit := interval_unit significand power
  obtain ⟨n, place, shape, found, reach⟩ := shortest_found significand power positive small
  obtain ⟨nonzero, near, held⟩ := (interval significand power).onGrid?_some place n found
  have bounds := (interval significand power).floor_bounds unit place
  have top := (interval significand power).holds_le unit n place held
  rw [interval_high] at top
  rw [interval_value] at bounds
  have few : (interval significand power).floor place < 10 ^ 17 := by
    have less := bounds.1.trans_lt reach
    rw [pointValue, zpow_add₀ (by norm_num), mul_comm,
      mul_lt_mul_iff_right₀ (by positivity)] at less
    exact_mod_cast less
  obtain ⟨same, stripped, fewer, higher⟩ := strip_value n place 20 nonzero
  rw [shape]
  exact ⟨stripped, by omega, same.trans_le top,
    reach.trans_le (zpow_le_zpow_right₀ (by norm_num) (by omega))⟩

end RingCache.Decimal
