import RingCache.Proofs.JsonNumbers
import RingCache.Proofs.ShortestDigits

/-!
Doubles in JSON texts. Whatever finite double is written, its text is a numeral with a point or
with an exponent, and reading it back overflows neither the significand, nor the exponent, nor the
double.
-/

namespace RingCache

inductive Binary64.IsFinite : Binary64 → Prop where
  | mk (negative : Bool) (significand : Nat) (power : Int) (small : significand < 2 ^ 53)
      (least : Binary64.leastPower ≤ power) (most : power ≤ 971) :
      IsFinite (.finite negative significand power)

namespace Json

def signChar (exponent : Int) : Char := if exponent < 0 then '-' else '+'

def mantissa (c : Char) : List Char → List Char
  | [] => [c]
  | d :: digits => c :: '.' :: d :: digits

/-- Texts of numbers that are no integers, with the significand and the exponent of ten that the
reader takes them for. -/
inductive Numeral : List Char → Nat → Int → Prop where
  | point (whole digits : List Char) (lead : Whole whole) (filled : digits ≠ [])
      (all : ∀ c ∈ digits, c.isDigit = true)
      (fits : Nat.ofDigitChars 10 (whole ++ digits) 0 < 2 ^ 64) :
      Numeral (whole ++ '.' :: digits) (Nat.ofDigitChars 10 (whole ++ digits) 0) (-digits.length)
  | power (c : Char) (digits : List Char) (lead : Whole [c])
      (all : ∀ c ∈ digits, c.isDigit = true)
      (fits : Nat.ofDigitChars 10 (c :: digits) 0 < 2 ^ 64) (exponent : Int)
      (bounded : exponent.natAbs < 2 ^ 31) :
      Numeral (mantissa c digits ++ 'e' :: signChar exponent :: Nat.toDigits 10 exponent.natAbs)
        (Nat.ofDigitChars 10 (c :: digits) 0) (exponent - digits.length)

theorem takeExponent_exact (digits : List Char) (all : ∀ c ∈ digits, c.isDigit = true) (value : Nat)
    (fits : Nat.ofDigitChars 10 digits value < 2 ^ 31) (p : Position) (rest : Bytes)
    (stop : Undigited rest) :
    ∃ q, takeExponent ⟨value, none⟩ p (Bytes.ofChars digits ++ rest) =
      (⟨Nat.ofDigitChars 10 digits value, none⟩, ⟨rest, q⟩) := by
  induction digits generalizing value p with
  | nil =>
      refine ⟨p, ?_⟩
      cases rest with
      | nil => rfl
      | cons octet rest => simp [takeExponent, stop octet rfl]
  | cons c digits ih =>
      rw [List.forall_mem_cons] at all
      rw [ofDigitChars_step] at fits ⊢
      have early : value * 10 + (c.toNat - 48) < exponentLimit :=
        Nat.lt_of_le_of_lt (ofDigitChars_grows digits _) fits
      obtain ⟨q, others⟩ := ih all.2 (value * 10 + (c.toNat - 48)) fits
        (p.past (UInt8.ofNat c.toNat))
      refine ⟨q, ?_⟩
      rw [ofChars_digit all.1, List.cons_append, takeExponent, if_pos (isDigit_octet all.1),
        digitValue_octet all.1]
      simp only [if_pos early, others]

theorem readExponent_exact (negative : Bool) (significand : Nat) (base exponent : Int)
    (bounded : exponent.natAbs < 2 ^ 31) (p : Position) (rest : Bytes) (follows : Follows rest) :
    ∃ q, readExponent negative significand base
        ⟨Bytes.ofChars ('e' :: signChar exponent :: Nat.toDigits 10 exponent.natAbs) ++ rest, p⟩ =
      floatOf negative significand (base + exponent) ⟨rest, q⟩ := by
  have letter (chars : List Char) : Bytes.ofChars ('e' :: chars) = 101 :: Bytes.ofChars chars :=
    Bytes.ofChars_ascii 'e' chars (by decide)
  have sign (chars : List Char) : Bytes.ofChars (signChar exponent :: chars) =
      (if exponent < 0 then 45 else 43) :: Bytes.ofChars chars := by
    rw [signChar]
    split
    · exact Bytes.ofChars_ascii '-' chars (by decide)
    · exact Bytes.ofChars_ascii '+' chars (by decide)
  have all := toDigits_all exponent.natAbs
  have value : Nat.ofDigitChars 10 (Nat.toDigits 10 exponent.natAbs) 0 = exponent.natAbs :=
    Nat.ofDigitChars_ten_toDigits
  have filled : Nat.toDigits 10 exponent.natAbs ≠ [] := Nat.toDigits_ne_nil
  rw [letter, sign]
  generalize Nat.toDigits 10 exponent.natAbs = digits at all value filled ⊢
  obtain ⟨q, read⟩ := takeExponent_exact digits all 0 (by rwa [value])
    ((p.past 101).past (if exponent < 0 then 45 else 43)) rest follows.undigited
  rw [value] at read
  refine ⟨q, ?_⟩
  cases digits with
  | nil => exact absurd rfl filled
  | cons c digits =>
      have digit := (List.forall_mem_cons.mp all).1
      rw [ofChars_digit digit, List.cons_append] at read ⊢
      by_cases below : exponent < 0
      · simp only [if_pos below] at read ⊢
        simp [readExponent, Cursor.next, isDigit_octet digit, read, abs_of_neg below]
      · simp only [if_neg below] at read ⊢
        simp [readExponent, Cursor.next, isDigit_octet digit, read, abs_of_nonneg (not_lt.mp below)]

theorem ofChars_letter (c : Char) (chars : List Char) (rest : Bytes) (ascii : c.toNat < 128) :
    Bytes.ofChars (c :: chars) ++ rest = UInt8.ofNat c.toNat :: (Bytes.ofChars chars ++ rest) := by
  rw [Bytes.ofChars_ascii c chars ascii, List.cons_append]

theorem Whole.filled {digits : List Char} (whole : Whole digits) : digits ≠ [] := by
  cases whole <;> exact List.cons_ne_nil _ _

theorem Whole.all {digits : List Char} (whole : Whole digits) : ∀ c ∈ digits, c.isDigit = true := by
  cases whole with
  | zero => simp
  | digits c chars positive all => exact all

def readOn (negative : Bool) (significand : Nat) (exponent : Int) (c : Cursor) : Reading Json :=
  match c.rest with
  | 101 :: _ => readExponent negative significand exponent c
  | 69 :: _ => readExponent negative significand exponent c
  | _ => floatOf negative significand exponent c

theorem readOn_follows (negative : Bool) (significand : Nat) (exponent : Int) {rest : Bytes}
    (follows : Follows rest) (p : Position) :
    readOn negative significand exponent ⟨rest, p⟩ =
      floatOf negative significand exponent ⟨rest, p⟩ := by
  cases rest with
  | nil => rfl
  | cons octet rest => rcases follows octet rfl with rfl | rfl | rfl <;> rfl

/-- A fraction is read up to what follows its digits. -/
theorem readFraction_exact (negative : Bool) (value : Nat) (read : Nat) (digits : List Char)
    (filled : digits ≠ []) (all : ∀ c ∈ digits, c.isDigit = true)
    (fits : Nat.ofDigitChars 10 digits value < 2 ^ 64) (p : Position) (rest : Bytes)
    (stop : Undigited rest) :
    ∃ q, readFraction negative ⟨value, read, 0⟩ ⟨46 :: (Bytes.ofChars digits ++ rest), p⟩ =
      readOn negative (Nat.ofDigitChars 10 digits value) (-digits.length) ⟨rest, q⟩ := by
  obtain ⟨q, taken⟩ := takeDigits_exact digits all value 0 fits (p.past 46) rest stop
  refine ⟨q, ?_⟩
  have positive : digits.length ≠ 0 := by simpa using filled
  have places : ((0 : Nat) : Int) - (0 + digits.length : Nat) = -digits.length := by omega
  simp only [readFraction, Cursor.next, taken, places]
  exact if_neg fun zero => positive (by omega)

theorem undigited_cons {octet : UInt8} (other : isDigit octet = false) (rest : Bytes) :
    Undigited (octet :: rest) := by
  rintro _ ⟨⟩
  exact other

/-- Digits, a point and digits. -/
theorem readNumber_point (negative : Bool) {whole digits : List Char} (lead : Whole whole)
    (filled : digits ≠ []) (all : ∀ c ∈ digits, c.isDigit = true)
    (fits : Nat.ofDigitChars 10 (whole ++ digits) 0 < 2 ^ 64) (p : Position) (rest : Bytes)
    (stop : Undigited rest) :
    ∃ q, readNumber negative ⟨Bytes.ofChars (whole ++ '.' :: digits) ++ rest, p⟩ =
      readOn negative (Nat.ofDigitChars 10 (whole ++ digits) 0) (-digits.length) ⟨rest, q⟩ := by
  rw [Nat.ofDigitChars_append] at fits ⊢
  obtain ⟨p', number⟩ := readNumber_whole negative whole lead
    (Nat.lt_of_le_of_lt (ofDigitChars_grows digits _) fits) p
    (46 :: (Bytes.ofChars digits ++ rest)) (undigited_cons rfl _)
  obtain ⟨q, fraction⟩ := readFraction_exact negative (Nat.ofDigitChars 10 whole 0) whole.length
    digits filled all fits p' rest stop
  refine ⟨q, ?_⟩
  rw [Bytes.ofChars_append, List.append_assoc, ofChars_letter '.' digits rest (by decide)]
  exact number.trans fraction

/-- What stands in front of an exponent. -/
theorem readNumber_mantissa (negative : Bool) {c : Char} {digits : List Char} (lead : Whole [c])
    (all : ∀ c ∈ digits, c.isDigit = true)
    (fits : Nat.ofDigitChars 10 (c :: digits) 0 < 2 ^ 64) (p : Position) (tail : Bytes) :
    ∃ q, readNumber negative ⟨Bytes.ofChars (mantissa c digits) ++ 101 :: tail, p⟩ =
      readExponent negative (Nat.ofDigitChars 10 (c :: digits) 0) (-digits.length)
        ⟨101 :: tail, q⟩ := by
  cases digits with
  | nil => exact readNumber_whole negative [c] lead fits p (101 :: tail) (undigited_cons rfl _)
  | cons d digits =>
      exact readNumber_point negative lead (List.cons_ne_nil d digits) all fits p (101 :: tail)
        (undigited_cons rfl _)

theorem readNumber_numeral {chars : List Char} {significand : Nat} {exponent : Int}
    (numeral : Numeral chars significand exponent) (negative : Bool) (p : Position) (rest : Bytes)
    (follows : Follows rest) :
    ∃ q, readNumber negative ⟨Bytes.ofChars chars ++ rest, p⟩ =
      floatOf negative significand exponent ⟨rest, q⟩ := by
  cases numeral with
  | point whole digits lead some all fits =>
      obtain ⟨q, read⟩ := readNumber_point negative lead some all fits p rest follows.undigited
      exact ⟨q, read.trans (readOn_follows negative _ _ follows q)⟩
  | power c digits lead all fits exponent bounded =>
      have letter := ofChars_letter 'e' (signChar exponent :: Nat.toDigits 10 exponent.natAbs) rest
        (by decide)
      obtain ⟨p', front⟩ := readNumber_mantissa negative lead all fits p
        (Bytes.ofChars (signChar exponent :: Nat.toDigits 10 exponent.natAbs) ++ rest)
      obtain ⟨q, power⟩ := readExponent_exact negative (Nat.ofDigitChars 10 (c :: digits) 0)
        (-digits.length) exponent bounded p' rest follows
      rw [letter] at power
      rw [Bytes.ofChars_append, List.append_assoc, letter, Int.sub_eq_add_neg, Int.add_comm]
      exact ⟨q, front.trans power⟩

open Decimal

theorem zeros_all (n : Nat) : ∀ c ∈ zeros n, c.isDigit = true := by
  intro c member
  rw [List.eq_of_mem_replicate member]
  rfl

/-- Digits that begin a number: the first is no zero, however many follow. -/
theorem toDigits_prefix {n : Nat} (positive : 0 < n) (front : List Char)
    (nonempty : front ≠ []) (others : List Char) (all : ∀ c ∈ front ++ others, c.isDigit = true)
    (shared : front <+: Nat.toDigits 10 n) : Whole (front ++ others) := by
  obtain ⟨c, chars, shape, nonzero⟩ := toDigits_head n positive
  obtain ⟨left, join⟩ := shared
  cases front with
  | nil => exact absurd rfl nonempty
  | cons d front =>
      rw [shape, List.cons_append, List.cons.injEq] at join
      rw [List.cons_append] at all ⊢
      exact .digits d _ (join.1 ▸ nonzero) all

/-- A whole number: its digits, zeros, and a fraction of zero. -/
theorem padded_numeral {n places : Nat} (positive : 0 < n) (small : 10 ^ places * n < 10 ^ 16) :
    ∃ significand,
      Numeral ((Nat.toDigits 10 n ++ zeros places) ++ ['.', '0']) significand (-1) := by
  have padded : ∀ c ∈ Nat.toDigits 10 n ++ zeros places, c.isDigit = true :=
    List.forall_mem_append.mpr ⟨toDigits_all n, zeros_all places⟩
  have lead := toDigits_prefix positive _ Nat.toDigits_ne_nil _ padded (List.prefix_refl _)
  have fits : Nat.ofDigitChars 10 ((Nat.toDigits 10 n ++ zeros places) ++ ['0']) 0 < 2 ^ 64 := by
    rw [Nat.ofDigitChars_append, Nat.ofDigitChars_append, zeros,
      Nat.ofDigitChars_replicate_zero, Nat.ofDigitChars_ten_toDigits, Nat.ofDigitChars_cons,
      Nat.ofDigitChars_nil]
    simp only [Nat.sub_self, Nat.add_zero]
    omega
  exact ⟨_, .point _ ['0'] lead (by simp) (by simp) fits⟩

/-- Digits on both sides of the point. -/
theorem pointed_numeral {n places : Nat} {text : List Char} (digits : Nat.toDigits 10 n = text)
    (positive : 0 < n) (few : n ≤ 10 ^ 17) (apart : 0 < places) (inside : places < text.length) :
    ∃ significand, Numeral
      (text.take (text.length - places) ++ '.' :: text.drop (text.length - places))
      significand (-places) := by
  have all := toDigits_all n
  have value : Nat.ofDigitChars 10 (Nat.toDigits 10 n) 0 = n := Nat.ofDigitChars_ten_toDigits
  have begins := toDigits_prefix positive (text.take (text.length - places))
  rw [digits] at all value begins
  have lead := begins (List.ne_nil_of_length_pos (by rw [List.length_take]; omega)) []
    (by simpa using fun c member => all c (List.mem_of_mem_take member)) (List.take_prefix _ _)
  rw [List.append_nil] at lead
  have length : (text.drop (text.length - places)).length = places := by
    rw [List.length_drop]
    omega
  have numeral := Numeral.point _ (text.drop (text.length - places)) lead
    (List.ne_nil_of_length_pos (by omega)) (fun c member => all c (List.mem_of_mem_drop member))
    (by rw [List.take_append_drop, value]; omega)
  rw [length] at numeral
  exact ⟨_, numeral⟩

/-- Digits behind a zero, a point and zeros. -/
theorem behind_numeral (n places : Nat) (few : n ≤ 10 ^ 17) :
    ∃ significand, Numeral ('0' :: '.' :: zeros places ++ Nat.toDigits 10 n) significand
      (-(places + (Nat.toDigits 10 n).length : Nat)) := by
  have length : (zeros places ++ Nat.toDigits 10 n).length =
      places + (Nat.toDigits 10 n).length := by
    rw [List.length_append, zeros, List.length_replicate]
  have value : Nat.ofDigitChars 10 (['0'] ++ (zeros places ++ Nat.toDigits 10 n)) 0 = n := by
    rw [Nat.ofDigitChars_append, Nat.ofDigitChars_append, zeros, Nat.ofDigitChars_replicate_zero,
      Nat.ofDigitChars_cons, Nat.ofDigitChars_nil]
    simp only [Nat.sub_self, Nat.add_zero, Nat.mul_zero, Nat.ofDigitChars_ten_toDigits]
  have numeral := Numeral.point ['0'] (zeros places ++ Nat.toDigits 10 n) .zero
    (by simp [Nat.toDigits_ne_nil]) (List.forall_mem_append.mpr ⟨zeros_all _, toDigits_all n⟩)
    (by rw [value]; omega)
  rw [length] at numeral
  exact ⟨_, numeral⟩

theorem positional_numeral (d : Digits) (positive : 0 < d.digits) (few : d.digits ≤ 10 ^ 17)
    (short : d.exponent + (Nat.toDigits 10 d.digits).length - 1 < 16) :
    ∃ significand exponent, exponent < 0 ∧
      Numeral (positional d ++ if d.exponent ≥ 0 then ['.', '0'] else []) significand exponent := by
  rw [positional]
  dsimp only
  by_cases up : d.exponent ≥ 0
  · have width : 0 < (Nat.toDigits 10 d.digits).length := Nat.length_toDigits_pos
    have less : d.digits < 10 ^ (16 - d.exponent.toNat) :=
      (Nat.length_toDigits_le_iff (by decide) (by omega)).mp (by omega)
    have small : 10 ^ d.exponent.toNat * d.digits < 10 ^ 16 :=
      calc 10 ^ d.exponent.toNat * d.digits
          < 10 ^ d.exponent.toNat * 10 ^ (16 - d.exponent.toNat) :=
            Nat.mul_lt_mul_of_pos_left less (Nat.pow_pos (by decide))
        _ = 10 ^ 16 := by
            rw [← Nat.pow_add]
            congr 1
            omega
    obtain ⟨significand, numeral⟩ := padded_numeral positive small
    rw [if_pos up, if_pos up]
    exact ⟨significand, -1, by decide, numeral⟩
  · rw [if_neg up, if_neg up, List.append_nil]
    split
    · next inside =>
        obtain ⟨significand, numeral⟩ := pointed_numeral rfl positive few (by omega) inside
        exact ⟨significand, _, by omega, numeral⟩
    · obtain ⟨significand, numeral⟩ := behind_numeral d.digits
        ((-d.exponent).toNat - (Nat.toDigits 10 d.digits).length) few
      exact ⟨significand, _, by omega, numeral⟩

theorem scientific_numeral (d : Digits) (positive : 0 < d.digits) (few : d.digits ≤ 10 ^ 17)
    (bounded : d.exponent.natAbs < 2 ^ 30) : Numeral (scientific d) d.digits d.exponent := by
  obtain ⟨c, digits, shape, nonzero⟩ := toDigits_head d.digits positive
  have all := toDigits_all d.digits
  have value : Nat.ofDigitChars 10 (Nat.toDigits 10 d.digits) 0 = d.digits :=
    Nat.ofDigitChars_ten_toDigits
  have length : (Nat.toDigits 10 d.digits).length ≤ 18 :=
    (Nat.length_toDigits_le_iff (by decide) (by decide)).mpr (by omega)
  rw [scientific]
  simp only [shape, List.length_cons] at all value length ⊢
  have numeral := Numeral.power c digits
    (.digits c [] nonzero (by simpa using (List.forall_mem_cons.mp all).1))
    (List.forall_mem_cons.mp all).2 (by omega) (d.exponent + (digits.length + 1 : Nat) - 1)
    (by omega)
  have back : d.exponent + (digits.length + 1 : Nat) - 1 - digits.length = d.exponent := by omega
  rw [value, back] at numeral
  cases digits <;> exact numeral

theorem scale_down (magnitude : Binary64) (exponent : Int) (down : exponent < 0) (fuel : Nat) :
    ∃ scaled, scale magnitude exponent fuel = some scaled := by
  induction fuel generalizing magnitude exponent with
  | zero => exact ⟨_, rfl⟩
  | succ fuel ih =>
      have negative : ¬ exponent ≥ 0 := by omega
      rw [scale]
      by_cases near : exponent.natAbs ≤ exponentStep
      · rw [if_pos near, if_neg negative]
        exact ⟨_, rfl⟩
      · rw [if_neg near, if_neg negative]
        split
        · exact ⟨_, rfl⟩
        · refine ih _ _ ?_
          rw [exponentStep] at near ⊢
          omega

/-- The digits of the greatest double are above it, and still scale to it. -/
theorem scale_greatest : (shortest (2 ^ 53 - 1) 971).exponent = 292 ∧
    scale (.ofNat (shortest (2 ^ 53 - 1) 971).digits) 292 8 =
      some (.finite false (2 ^ 53 - 1) 971) := by
  decide +kernel

theorem shortest_below (m : Nat) (p : Int) (positive : 0 < m) (small : m < 2 ^ 53) (most : p ≤ 971)
    (other : ¬ (m = 2 ^ 53 - 1 ∧ p = 971)) (k : Nat) (place : (shortest m p).exponent = k) :
    (shortest m p).digits * 10 ^ k ≤ Binary64.topGap := by
  have fine := (shortest_fine m p positive small).below
  rw [place, pointValue, zpow_natCast] at fine
  have top : (m : ℚ) * 2 ^ p + 2 ^ p / 2 ≤ (Binary64.topGap : ℚ) := by
    have gap : (Binary64.topGap : ℚ) = (2 ^ 54 - 3) * 2 ^ (970 : Int) := by
      rw [Binary64.topGap, Nat.cast_mul, Nat.cast_pow, ← zpow_natCast]
      norm_num
    rw [gap]
    clear gap fine
    -- Below the greatest power a whole unit is left, and at it two units of the significand.
    rcases lt_or_eq_of_le most with less | rfl
    · have lower : (2 : ℚ) ^ p ≤ 2 ^ (970 : Int) := zpow_le_zpow_right₀ (by norm_num) (by omega)
      have few : (m : ℚ) + 1 ≤ 2 ^ 53 := by exact_mod_cast small
      have place : (0 : ℚ) < 2 ^ p := by positivity
      generalize (2 : ℚ) ^ p = unit at *
      generalize (2 : ℚ) ^ (970 : Int) = limit at *
      nlinarith
    · have few : (m : ℚ) + 2 ≤ 2 ^ 53 := by
        have : m + 2 ≤ 2 ^ 53 := by omega
        exact_mod_cast this
      have double : (2 : ℚ) ^ (971 : Int) = 2 * 2 ^ (970 : Int) := by
        rw [show (971 : Int) = 1 + 970 from rfl, zpow_add₀ (by norm_num), zpow_one]
      have place : (0 : ℚ) < 2 ^ (970 : Int) := by positivity
      rw [double]
      clear double
      generalize (2 : ℚ) ^ (970 : Int) = limit at *
      linarith [mul_le_mul_of_nonneg_right few place.le]
  exact_mod_cast fine.trans top

theorem power_lt {k a b limit : Nat} (reach : 10 ^ k ≤ limit) (above : limit < 10 ^ a * 10 ^ b) :
    k < a + b := by
  rw [← Nat.pow_add] at above
  exact (Nat.pow_lt_pow_iff_right (by decide)).mp (reach.trans_lt above)

theorem shortest_scales (m : Nat) (p : Int) (positive : 0 < m) (small : m < 2 ^ 53)
    (most : p ≤ 971) :
    ∃ scaled, scale (.ofNat (shortest m p).digits) (shortest m p).exponent 8 = some scaled := by
  rcases lt_or_ge (shortest m p).exponent 0 with down | up
  · exact scale_down _ _ down 8
  · -- The digits of the greatest double stand above the gap, so its product is computed.
    by_cases greatest : m = 2 ^ 53 - 1 ∧ p = 971
    · obtain ⟨rfl, rfl⟩ := greatest
      exact ⟨_, by rw [scale_greatest.1]; exact scale_greatest.2⟩
    · obtain ⟨k, place⟩ := Int.eq_ofNat_of_zero_le up
      have fine := shortest_fine m p positive small
      have below := shortest_below m p positive small most greatest k place
      have inside : k < 309 := by
        have reach : 10 ^ k ≤ Binary64.topGap :=
          (Nat.le_mul_of_pos_left _ fine.positive).trans below
        exact power_lt (a := 155) (b := 154) reach (by decide +kernel)
      obtain ⟨significand, power, product⟩ := Binary64.mul_power_finite _ k fine.positive fine.few
        inside below
      have near : (k : Int).natAbs ≤ exponentStep := by
        rw [exponentStep]
        omega
      refine ⟨.finite false significand power, ?_⟩
      rw [place, scale, if_pos near, if_pos (Int.natCast_nonneg k), powerOfTen, Int.natAbs_natCast,
        product]

theorem shortest_bounded (m : Nat) (p : Int) (positive : 0 < m) (small : m < 2 ^ 53)
    (least : Binary64.leastPower ≤ p) (most : p ≤ 971) :
    (shortest m p).exponent.natAbs < 2 ^ 30 := by
  have fine := shortest_fine m p positive small
  generalize shortest m p = d at fine ⊢
  have whole : (1 : ℚ) ≤ m := by exact_mod_cast positive
  have low : -1091 < d.exponent := by
    by_contra beyond
    have tiny : (10 : ℚ) ^ (d.exponent + 17) ≤ 2 ^ p :=
      calc (10 : ℚ) ^ (d.exponent + 17)
          ≤ 10 ^ Binary64.leastPower :=
            zpow_le_zpow_right₀ (by norm_num) (by rw [Binary64.leastPower]; omega)
        _ ≤ 2 ^ Binary64.leastPower := by
            rw [Binary64.leastPower, zpow_neg, zpow_neg]
            exact inv_anti₀ (by positivity)
              (zpow_le_zpow_left₀ (by decide) (by norm_num) (by norm_num))
        _ ≤ 2 ^ p := zpow_le_zpow_right₀ (by norm_num) least
    have place : (0 : ℚ) < 2 ^ p := by positivity
    exact absurd (fine.above.trans_le tiny) (not_lt.mpr (le_mul_of_one_le_left place.le whole))
  have high : d.exponent < 1026 := by
    by_contra beyond
    have digits : (1 : ℚ) ≤ d.digits := by exact_mod_cast fine.positive
    have few : (m : ℚ) + 1 ≤ 2 ^ 53 := by exact_mod_cast small
    have place : (0 : ℚ) < 2 ^ p := by positivity
    have huge : (2 : ℚ) ^ p * 2 ^ (55 : Int) ≤ pointValue d.digits d.exponent :=
      calc (2 : ℚ) ^ p * 2 ^ (55 : Int)
          = 2 ^ (p + 55) := (zpow_add₀ (by norm_num) p 55).symm
        _ ≤ 2 ^ d.exponent := zpow_le_zpow_right₀ (by norm_num) (by omega)
        _ ≤ 10 ^ d.exponent := zpow_le_zpow_left₀ (by omega) (by norm_num) (by norm_num)
        _ ≤ pointValue d.digits d.exponent := le_mul_of_one_le_left (by positivity) digits
    nlinarith [fine.below]
  omega

/-- The magnitude of a double, as a document has it. -/
theorem magnitude_numeral (m : Nat) (p : Int) (small : m < 2 ^ 53)
    (least : Binary64.leastPower ≤ p) (most : p ≤ 971) :
    ∃ chars significand exponent, Numeral chars significand exponent ∧
      (∃ scaled, scale (.ofNat significand) exponent 8 = some scaled) ∧
      ∀ negative, document (.finite negative m p) =
        String.ofList (if negative then '-' :: chars else chars) := by
  rcases Nat.eq_zero_or_pos m with rfl | positive
  · have zero := Numeral.point ['0'] ['0'] .zero (by simp) (by simp) (by decide)
    exact ⟨_, _, _, zero, scale_down _ _ (by simp) 8, fun negative => rfl⟩
  · have fine := shortest_fine m p positive small
    by_cases plain : documentThresholds.leastExponent ≤ (shortest m p).exponent +
          (Nat.toDigits 10 (shortest m p).digits).length - 1 ∧
        (shortest m p).exponent + (Nat.toDigits 10 (shortest m p).digits).length - 1 <
          documentThresholds.exponentLimit
    · obtain ⟨significand, exponent, down, numeral⟩ := positional_numeral (shortest m p)
        fine.positive fine.few plain.2
      refine ⟨_, _, _, numeral, scale_down _ _ down 8, fun negative => ?_⟩
      simp only [document, if_neg positive.ne', if_pos plain]
    · refine ⟨_, _, _, scientific_numeral (shortest m p) fine.positive fine.few
        (shortest_bounded m p positive small least most),
        shortest_scales m p positive small most, fun negative => ?_⟩
      simp only [document, if_neg positive.ne', if_neg plain]

theorem Whole.lead {digits : List Char} (whole : Whole digits) :
    ∃ c others, digits = c :: others ∧ c.isDigit = true := by
  obtain ⟨c, others, shape⟩ := List.exists_cons_of_ne_nil whole.filled
  exact ⟨c, others, shape, whole.all c (by simp [shape])⟩

theorem Numeral.lead {chars : List Char} {significand : Nat} {exponent : Int}
    (numeral : Numeral chars significand exponent) :
    ∃ c others, chars = c :: others ∧ c.isDigit = true := by
  cases numeral with
  | point whole digits lead some all fits =>
      obtain ⟨c, others, rfl, digit⟩ := lead.lead
      exact ⟨c, _, rfl, digit⟩
  | power c digits lead all fits exponent bounded =>
      have digit := lead.all c (List.mem_singleton_self c)
      cases digits <;> exact ⟨c, _, rfl, digit⟩

end Json

end RingCache
