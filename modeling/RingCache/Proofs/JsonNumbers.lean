import Mathlib.Algebra.Group.Int.Defs
import RingCache.Proofs.DateText
import RingCache.Proofs.JsonStrings

/-!
Whole numbers in JSON texts. Decimal digits are read as their value up to the first octet that is no
digit, and an integer that 64 bits can hold, with or without a sign, is read as that integer.
-/

namespace RingCache.Json

/-- Digits as the reader takes them in front of a fraction or an exponent: no zero leads them. -/
inductive Whole : List Char → Prop where
  | zero : Whole ['0']
  | digits (c : Char) (chars : List Char) (positive : c ≠ '0')
      (all : ∀ d ∈ c :: chars, d.isDigit = true) : Whole (c :: chars)

def Undigited (rest : Bytes) : Prop := ∀ octet ∈ rest.head?, isDigit octet = false

theorem digit_ascii {c : Char} (digit : c.isDigit = true) : 48 ≤ c.toNat ∧ c.toNat ≤ 57 := by
  simp only [Char.isDigit, Bool.and_eq_true, decide_eq_true_eq] at digit
  exact ⟨digit.1, digit.2⟩

theorem digit_octet {c : Char} (digit : c.isDigit = true) :
    (UInt8.ofNat c.toNat).toNat = c.toNat := by
  have bounds := digit_ascii digit
  exact UInt8.toNat_ofNat_of_lt' (Nat.lt_of_le_of_lt bounds.2 (by decide))

theorem ofChars_digit {c : Char} (digit : c.isDigit = true) (chars : List Char) :
    Bytes.ofChars (c :: chars) = UInt8.ofNat c.toNat :: Bytes.ofChars chars :=
  Bytes.ofChars_ascii c chars (Nat.lt_of_le_of_lt (digit_ascii digit).2 (by decide))

theorem isDigit_octet {c : Char} (digit : c.isDigit = true) :
    isDigit (UInt8.ofNat c.toNat) = true := by
  have bounds := digit_ascii digit
  simp only [isDigit, Bool.and_eq_true, decide_eq_true_eq, UInt8.le_iff_toNat_le,
    digit_octet digit]
  exact bounds

theorem digitValue_octet {c : Char} (digit : c.isDigit = true) :
    digitValue (UInt8.ofNat c.toNat) = c.toNat - 48 := by
  rw [digitValue, digit_octet digit]

/-- Digits let a number only grow, so what fits in the end fits on the way too. -/
theorem ofDigitChars_grows (digits : List Char) (value : Nat) :
    value ≤ Nat.ofDigitChars 10 digits value := by
  rw [Nat.ofDigitChars_eq_ofDigitChars_zero]
  exact Nat.le_add_right_of_le (Nat.le_mul_of_pos_left _ (Nat.pow_pos (by decide)))

theorem ofDigitChars_step (c : Char) (digits : List Char) (value : Nat) :
    Nat.ofDigitChars 10 (c :: digits) value =
      Nat.ofDigitChars 10 digits (value * 10 + (c.toNat - 48)) := by
  rw [Nat.ofDigitChars_cons, Nat.mul_comm]
  rfl

/-- The digits are read up to what follows, as long as 64 bits hold their value. -/
theorem takeDigits_exact (digits : List Char) (all : ∀ c ∈ digits, c.isDigit = true)
    (value read : Nat) (fits : Nat.ofDigitChars 10 digits value < 2 ^ 64) (p : Position)
    (rest : Bytes) (stop : Undigited rest) :
    ∃ q, takeDigits ⟨value, read, 0⟩ p (Bytes.ofChars digits ++ rest) =
      (⟨Nat.ofDigitChars 10 digits value, read + digits.length, 0⟩, ⟨rest, q⟩) := by
  induction digits generalizing value read p with
  | nil =>
      refine ⟨p, ?_⟩
      cases rest with
      | nil => rfl
      | cons octet rest => simp [takeDigits, stop octet rfl]
  | cons c digits ih =>
      rw [List.forall_mem_cons] at all
      rw [ofDigitChars_step] at fits ⊢
      -- No digit is dropped on the way, since the value never shrinks.
      have early : value * 10 + (c.toNat - 48) < Nat.pow 2 64 :=
        Nat.lt_of_le_of_lt (ofDigitChars_grows digits _) fits
      obtain ⟨q, others⟩ := ih all.2 (value * 10 + (c.toNat - 48)) (read + 1) fits
        (p.past (UInt8.ofNat c.toNat))
      refine ⟨q, ?_⟩
      rw [ofChars_digit all.1, List.cons_append, takeDigits, if_pos (isDigit_octet all.1),
        digitValue_octet all.1, Significand.push, if_pos (by simpa using early), others,
        List.length_cons, Nat.add_assoc, Nat.add_comm 1]

/-- A number is read as its digits and what follows them. -/
theorem readNumber_whole (negative : Bool) (digits : List Char) (whole : Whole digits)
    (fits : Nat.ofDigitChars 10 digits 0 < 2 ^ 64) (p : Position) (rest : Bytes)
    (stop : Undigited rest) :
    ∃ q, readNumber negative ⟨Bytes.ofChars digits ++ rest, p⟩ =
      readTail negative ⟨Nat.ofDigitChars 10 digits 0, digits.length, 0⟩ ⟨rest, q⟩ := by
  cases whole with
  | zero =>
      have octets : Bytes.ofChars ['0'] = [48] := Bytes.ofChars_ascii '0' [] (by decide)
      refine ⟨p.past 48, ?_⟩
      rw [octets]
      cases rest with
      | nil => rfl
      | cons octet rest => simp [readNumber, Cursor.next, stop octet rfl, Nat.ofDigitChars]
  | digits c chars positive all =>
      have digit := (List.forall_mem_cons.mp all).1
      have nonzero : UInt8.ofNat c.toNat ≠ 48 := by
        intro same
        have value := congrArg UInt8.toNat same
        rw [digit_octet digit] at value
        exact positive (Char.toNat_inj.mp value)
      obtain ⟨q, read⟩ := takeDigits_exact (c :: chars) all 0 0 fits p rest stop
      rw [ofChars_digit digit, List.cons_append] at read
      refine ⟨q, ?_⟩
      rw [ofChars_digit digit, List.cons_append, readNumber]
      simp only [if_neg nonzero, isDigit_octet digit, if_true, read, Nat.zero_add]

theorem toDigits_head (n : Nat) (positive : 0 < n) :
    ∃ c chars, Nat.toDigits 10 n = c :: chars ∧ c ≠ '0' := by
  induction n using Nat.strongRecOn with
  | ind n ih =>
      rw [Nat.toDigits_eq_if (by decide)]
      by_cases one : n < 10
      · rw [if_pos one]
        refine ⟨n.digitChar, [], rfl, ?_⟩
        have : ∀ n < 10, 0 < n → n.digitChar ≠ '0' := by decide
        exact this n one positive
      · rw [if_neg one]
        obtain ⟨c, chars, shape, nonzero⟩ := ih (n / 10) (by omega) (by omega)
        exact ⟨c, _, by rw [shape, List.cons_append], nonzero⟩

theorem toDigits_all (n : Nat) : ∀ c ∈ Nat.toDigits 10 n, c.isDigit = true :=
  fun _ member => Nat.isDigit_of_mem_toDigits (by decide) (by decide) member

theorem toDigits_whole (n : Nat) : Whole (Nat.toDigits 10 n) := by
  rcases Nat.eq_zero_or_pos n with rfl | positive
  · exact .zero
  · obtain ⟨c, chars, shape, nonzero⟩ := toDigits_head n positive
    have all := toDigits_all n
    rw [shape] at all ⊢
    exact .digits c chars nonzero all

/-- What may stand behind a value: the end of the text, a comma, or the end of an array or an
object. -/
def Follows (rest : Bytes) : Prop := ∀ octet ∈ rest.head?, octet = 44 ∨ octet = 93 ∨ octet = 125

theorem Follows.undigited {rest : Bytes} (follows : Follows rest) : Undigited rest := by
  intro octet first
  rcases follows octet first with rfl | rfl | rfl <;> rfl

theorem readTail_int (negative : Bool) (s : Significand) (rest : Bytes) (p : Position)
    (follows : Follows rest) (kept : s.dropped = 0) :
    readTail negative s ⟨rest, p⟩ =
      if !negative then .ok (.int s.value, ⟨rest, p⟩)
      else if s.value = 0 ∨ s.value > Nat.pow 2 63 then
        .ok (.float (Binary64.ofNat s.value).neg, ⟨rest, p⟩)
      else .ok (.int (-(s.value : Int)), ⟨rest, p⟩) := by
  cases rest with
  | nil => simp [readTail, kept]
  | cons octet rest =>
      rcases follows octet rfl with rfl | rfl | rfl <;> simp [readTail, kept]

/-- The digits behind the sign of an integer. -/
theorem readNumber_int (value : Int) (low : -2 ^ 63 ≤ value) (high : value < 2 ^ 64)
    (p : Position) (rest : Bytes) (follows : Follows rest) :
    ∃ q, readNumber (decide (value < 0))
        ⟨Bytes.ofChars (Nat.toDigits 10 value.natAbs) ++ rest, p⟩ =
      .ok (.int value, ⟨rest, q⟩) := by
  have fits : value.natAbs < 2 ^ 64 := by omega
  obtain ⟨q, read⟩ := readNumber_whole (decide (value < 0)) _ (toDigits_whole value.natAbs)
    (by rwa [Nat.ofDigitChars_ten_toDigits]) p rest follows.undigited
  rw [Nat.ofDigitChars_ten_toDigits, readTail_int _ _ _ _ follows rfl] at read
  refine ⟨q, read.trans ?_⟩
  by_cases below : value < 0
  · have back : -(value.natAbs : Int) = value := by omega
    have inside : ¬ (value.natAbs = 0 ∨ value.natAbs > Nat.pow 2 63) := by
      have power : Nat.pow 2 63 = 2 ^ 63 := rfl
      omega
    simp only [below, decide_true, Bool.not_true, Bool.false_eq_true, if_false, if_neg inside, back]
  · have back : (value.natAbs : Int) = value := by omega
    simp [below, back]

end RingCache.Json
