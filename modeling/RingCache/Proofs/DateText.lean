import Mathlib.Algebra.Group.Nat.Defs
import RingCache.Proofs.Calendar
import RingCache.Time.Rfc3339

/-!
RFC 3339 text. What is written for an instant is read back as that instant, years with a sign and
leap seconds at the end of a minute included; a leap second inside a minute is read back as the
second after it, because that has the same text. The fields are numbers in decimal digits, so each
reader meets digits, up to its width or to a character that is none.
-/

namespace RingCache.Time

namespace Rfc3339

theorem isDigit_eq (c : Char) : isDigit c = c.isDigit := by
  simp only [isDigit, Char.isDigit]
  rfl

theorem isBlank_of_digit (c : Char) (digit : isDigit c = true) : Text.isBlank c = false := by
  have range : 48 ≤ c.toNat ∧ c.toNat ≤ 57 := by
    simp only [isDigit, Bool.and_eq_true, decide_eq_true_eq] at digit
    exact digit
  simp only [Text.isBlank, Bool.or_eq_false_iff, Bool.and_eq_false_iff, decide_eq_false_iff_not]
  omega

theorem padded_digits (width n : Nat) (c : Char) (member : c ∈ padded width n) :
    isDigit c = true := by
  rcases List.mem_append.mp member with zero | digit
  · rw [List.eq_of_mem_replicate zero]; rfl
  · rw [isDigit_eq]; exact Nat.isDigit_of_mem_toDigits (by decide) (by decide) digit

theorem padded_value (width n : Nat) : Nat.ofDigitChars 10 (padded width n) 0 = n := by
  rw [padded, Nat.ofDigitChars_append, Nat.ofDigitChars_replicate_zero, Nat.mul_zero,
    Nat.ofDigitChars_ten_toDigits]

theorem padded_length (width n : Nat) (positive : 0 < width) (fits : n < 10 ^ width) :
    (padded width n).length = width := by
  have short := (Nat.length_toDigits_le_iff (b := 10) (by decide) positive).mpr fits
  rw [padded, List.length_append, List.length_replicate, Nat.sub_add_cancel short]

theorem padded_cons (width n : Nat) :
    ∃ c cs, padded width n = c :: cs ∧ isDigit c = true := by
  have filled : padded width n ≠ [] := by simp [padded]
  obtain ⟨c, cs, shape⟩ := List.exists_cons_of_ne_nil filled
  exact ⟨c, cs, shape, padded_digits width n c (shape ▸ List.mem_cons_self)⟩

theorem moreDigits_exact (digits rest : List Char) (value width : Nat)
    (all : ∀ c ∈ digits, isDigit c = true) (small : Nat.ofDigitChars 10 digits value < numberLimit)
    (room : width = digits.length ∨
      digits.length ≤ width ∧ ∃ c cs, rest = c :: cs ∧ isDigit c = false) :
    moreDigits value width (digits ++ rest) = .ok (Nat.ofDigitChars 10 digits value, rest) := by
  induction digits generalizing value width with
  | nil =>
      rcases room with rfl | ⟨_, c, cs, rfl, other⟩
      · rfl
      · cases width <;> simp [moreDigits, other]
  | cons digit digits ih =>
      rw [List.forall_mem_cons] at all
      cases width with
      | zero => simp at room
      | succ width =>
          have step : Nat.ofDigitChars 10 (digit :: digits) value =
              Nat.ofDigitChars 10 digits (value * 10 + digitValue digit) := by
            rw [Nat.ofDigitChars_cons, Nat.mul_comm]
            rfl
          rw [step] at small ⊢
          -- The value only grows, so it is below the limit on the way too.
          have early : value * 10 + digitValue digit < numberLimit := by
            refine Nat.lt_of_le_of_lt ?_ small
            rw [Nat.ofDigitChars_eq_ofDigitChars_zero]
            exact Nat.le_add_right_of_le (Nat.le_mul_of_pos_left _ (Nat.pow_pos (by decide)))
          simp only [List.cons_append, moreDigits, all.1, Bool.not_true, Bool.false_eq_true,
            if_false, early, if_true]
          apply ih _ _ all.2 small
          simpa using room

/-- A number is read up to the width of the field or to the end of its digits. -/
theorem number_padded (least n width : Nat) (rest : List Char) (small : n < numberLimit)
    (room : width = (padded least n).length ∨
      (padded least n).length ≤ width ∧ ∃ c cs, rest = c :: cs ∧ isDigit c = false) :
    number width (padded least n ++ rest) = .ok (n, rest) := by
  have read := moreDigits_exact (padded least n) rest 0 width (padded_digits least n)
    (by rwa [padded_value]) room
  rw [padded_value] at read
  obtain ⟨c, cs, shape, digit⟩ := padded_cons least n
  rw [shape] at read ⊢
  simpa [number, digit] using read

theorem skipBlank_padded (least n : Nat) (rest : List Char) :
    skipBlank (padded least n ++ rest) = padded least n ++ rest := by
  obtain ⟨c, cs, shape, digit⟩ := padded_cons least n
  simp [shape, skipBlank, isBlank_of_digit c digit]

theorem numberLimit_large : 1000000000000000000 < numberLimit := by decide

theorem field_padded (low high n : Nat) (rest : List Char) (above : low ≤ n) (below : n ≤ high)
    (narrow : high < 100) : field low high (padded 2 n ++ rest) = .ok (n, rest) := by
  have large := numberLimit_large
  have read := number_padded 2 n 2 rest (by omega)
    (.inl (padded_length 2 n (by decide) (by omega)).symm)
  simp [field, skipBlank_padded, read, above, below, bind, Except.bind]

theorem separator_mark (mark : Char) (rest : List Char) (plain : Text.isBlank mark = false) :
    separator mark (mark :: rest) = .ok rest := by
  simp [separator, skipBlank, plain]

theorem year_exact (year : Int) (rest : List Char) (low : -262143 ≤ year) (high : year ≤ 262142) :
    Rfc3339.year (yearText year ++ '-' :: rest) = .ok (year, '-' :: rest) := by
  have large := numberLimit_large
  have bounds : -2147483648 ≤ year ∧ year ≤ 2147483647 := by omega
  -- A year with a sign may have any number of digits, up to the separator.
  have signed : ∀ n : Nat, n ≤ 262143 →
      number ((padded 4 n).length + (rest.length + 1)) (padded 4 n ++ '-' :: rest) =
        .ok (n, '-' :: rest) := by
    intro n small
    apply number_padded _ _ _ _ (by omega)
    exact .inr ⟨Nat.le_add_right _ _, _, _, rfl, rfl⟩
  by_cases past : year < 0
  · have back : -(year.natAbs : Int) = year := by omega
    have blank : skipBlank ('-' :: (padded 4 year.natAbs ++ '-' :: rest)) =
        '-' :: (padded 4 year.natAbs ++ '-' :: rest) := rfl
    rw [yearText, if_pos past, List.cons_append]
    simp only [Rfc3339.year, blank, List.length_append, List.length_cons,
      signed year.natAbs (by omega), bind, Except.bind, pure, Except.pure, back, if_pos bounds]
  · have back : (year.toNat : Int) = year := by omega
    by_cases short : year ≤ 9999
    · have read := number_padded 4 year.toNat 4 ('-' :: rest) (by omega)
        (.inl (padded_length 4 _ (by decide) (by omega)).symm)
      have blank := skipBlank_padded 4 year.toNat ('-' :: rest)
      obtain ⟨c, cs, shape, digit⟩ := padded_cons 4 year.toNat
      rw [yearText, if_neg past, if_pos short]
      rw [shape, List.cons_append] at read blank ⊢
      simp only [Rfc3339.year, blank]
      split
      · next minus => cases minus; contradiction
      · next plus => cases plus; contradiction
      · simp only [read, bind, Except.bind, pure, Except.pure, back, if_pos bounds]
    · have blank : skipBlank ('+' :: (padded 4 year.toNat ++ '-' :: rest)) =
          '+' :: (padded 4 year.toNat ++ '-' :: rest) := rfl
      rw [yearText, if_neg past, if_neg short, List.cons_append]
      simp only [Rfc3339.year, blank, List.length_append, List.length_cons,
        signed year.toNat (by omega), bind, Except.bind, pure, Except.pure, back, if_pos bounds]

theorem fraction_padded (width n : Nat) (positive : 0 < width) (narrow : width ≤ 9)
    (fits : n < 10 ^ width) :
    fraction ('.' :: padded width n ++ ['Z']) = .ok (n * 10 ^ (9 - width), ['Z']) := by
  have large := numberLimit_large
  have small : n < 10 ^ 9 := Nat.lt_of_lt_of_le fits (Nat.pow_le_pow_right (by decide) narrow)
  have long := padded_length width n positive fits
  have read := number_padded width n 9 ['Z'] (by omega)
    (.inr ⟨long.symm ▸ narrow, 'Z', [], rfl, rfl⟩)
  simp [fraction, read, long, isDigit, bind, Except.bind, pure, Except.pure]

theorem fraction_exact (nanos : Nat) (small : nanos < nanosPerSecond) :
    fraction (fractionText nanos ++ ['Z']) = .ok (nanos, ['Z']) := by
  simp only [nanosPerSecond] at small
  simp only [fractionText]
  split
  · next whole => rw [whole]; rfl
  · split
    · rw [fraction_padded 3 _ (by decide) (by decide) (by omega)]
      congr 2
      omega
    · split
      · rw [fraction_padded 6 _ (by decide) (by decide) (by omega)]
        congr 2
        omega
      · rw [fraction_padded 9 _ (by decide) (by decide) (by omega)]
        simp

end Rfc3339

/-- The instants that there are: behind any second there may be a leap second. -/
structure Instant.Representable (instant : Instant) : Prop where
  first : Instant.earliest.seconds ≤ instant.seconds
  last : instant.seconds ≤ Instant.latest.seconds
  nanos : instant.nanos < 2 * nanosPerSecond

/-- The instants that are read back from their texts: a leap second ends a minute. -/
structure Instant.Exact (instant : Instant) : Prop where
  first : Instant.earliest.seconds ≤ instant.seconds
  last : instant.seconds ≤ Instant.latest.seconds
  nanos : instant.nanos < nanosPerSecond ∨
    instant.seconds % 60 = 59 ∧ instant.nanos < 2 * nanosPerSecond

instance (instant : Instant) : Decidable instant.Exact :=
  decidable_of_iff
    (Instant.earliest.seconds ≤ instant.seconds ∧ instant.seconds ≤ Instant.latest.seconds ∧
      (instant.nanos < nanosPerSecond ∨
        instant.seconds % 60 = 59 ∧ instant.nanos < 2 * nanosPerSecond))
    ⟨fun ⟨first, last, nanos⟩ => ⟨first, last, nanos⟩,
      fun ⟨first, last, nanos⟩ => ⟨first, last, nanos⟩⟩

/-- The instant that a text tells. Inside a minute, a leap second is written like the second after it. -/
def Instant.told (instant : Instant) : Instant :=
  if nanosPerSecond ≤ instant.nanos ∧ instant.seconds % 60 ≠ 59 then
    ⟨instant.seconds + 1, instant.nanos - nanosPerSecond⟩
  else instant

theorem Instant.Exact.told_eq {instant : Instant} (exact : instant.Exact) :
    instant.told = instant := by
  rw [Instant.told, if_neg]
  rintro ⟨leap, inside⟩
  rcases exact.nanos with usual | ⟨last, _⟩
  · exact Nat.not_lt.mpr leap usual
  · exact inside last

theorem Instant.Exact.representable {instant : Instant} (exact : instant.Exact) :
    instant.Representable := by
  refine ⟨exact.first, exact.last, ?_⟩
  have nanos := exact.nanos
  omega

theorem Instant.Representable.told_exact {instant : Instant} (held : instant.Representable) :
    instant.told.Exact := by
  obtain ⟨first, last, nanos⟩ := held
  simp only [earliest, latest, nanosPerSecond] at first last nanos
  rw [told]
  split
  · next leap =>
      refine ⟨?_, ?_, .inl ?_⟩ <;> simp only [earliest, latest, nanosPerSecond] at leap ⊢ <;> omega
  · next usual =>
      refine ⟨first, last, ?_⟩
      simp only [nanosPerSecond] at usual ⊢
      omega

theorem Instant.Representable.told_eq_iff {instant : Instant} (held : instant.Representable) :
    instant.told = instant ↔ instant.Exact :=
  ⟨fun same => same ▸ held.told_exact, Instant.Exact.told_eq⟩

theorem Instant.Exact.laterOrLatest {now : Instant} (sound : now.Exact)
    (lifetime : Span) : (now.laterOrLatest lifetime).Exact := by
  have greatest : latest.Exact := by decide
  simp only [Instant.laterOrLatest, plus?]
  split
  · exact greatest
  · split
    · exact greatest
    · next within =>
        obtain ⟨first, _, _⟩ := sound
        refine ⟨?_, ?_, .inl (Nat.mod_lt _ (by decide))⟩
        · simp only [Option.getD_some, later, earliest, nanosPerSecond] at first ⊢
          omega
        · simp only [before, Bool.or_eq_true, decide_eq_true_eq, not_or, Int.not_lt] at within
          exact within.1

theorem Instant.Exact.years {instant : Instant} (sound : instant.Exact) :
    Rfc3339.leastYear ≤ (Date.ofDayNumber (instant.seconds / secondsPerDay)).year ∧
      (Date.ofDayNumber (instant.seconds / secondsPerDay)).year ≤ Rfc3339.greatestYear := by
  obtain ⟨first, last, _⟩ := sound
  simp only [Instant.earliest, Instant.latest] at first last
  apply ofDayNumber_year
  · simp only [secondsPerDay]
    omega
  · simp only [secondsPerDay]
    omega

namespace Rfc3339

/-- The date and time of day of an instant make up that instant. -/
theorem instantOf_exact (instant : Instant) (sound : instant.Exact) :
    instantOf (Date.ofDayNumber (instant.seconds / secondsPerDay))
      (instant.seconds % secondsPerDay).toNat instant.nanos 0 = .ok instant := by
  obtain ⟨valid, number⟩ := ofDayNumber_exact (instant.seconds / secondsPerDay)
  obtain ⟨least, greatest⟩ := sound.years
  obtain ⟨first, last, _⟩ := sound
  have whole : instant.seconds / secondsPerDay * secondsPerDay +
      ((instant.seconds % secondsPerDay).toNat : Int) - 0 = instant.seconds := by
    simp only [secondsPerDay]
    omega
  simp only [instantOf, number, whole]
  rw [if_neg, if_neg (by decide), if_neg]
  · exact not_or.mpr ⟨Int.not_lt.mpr first, Int.not_lt.mpr last⟩
  · exact not_or.mpr ⟨not_not_intro valid, not_or.mpr ⟨Int.not_lt.mpr least, Int.not_lt.mpr greatest⟩⟩

/-- What is written for an instant is read as that instant. -/
theorem read_text (instant : Instant) (sound : instant.Exact) :
    read (text instant) = .ok instant := by
  have inDay : (instant.seconds % secondsPerDay).toNat < secondsPerDay := by
    simp only [secondsPerDay]
    omega
  have made := instantOf_exact instant sound
  obtain ⟨⟨from1, to12, from1', upTo⟩, _⟩ := ofDayNumber_exact (instant.seconds / secondsPerDay)
  have to31 := Nat.le_trans upTo (daysInMonth_le _ _)
  have years := sound.years
  have zulu := fraction_exact (instant.nanos % nanosPerSecond) (Nat.mod_lt _ (by decide))
  have nanos := sound.nanos
  have minutes : (instant.seconds % secondsPerDay).toNat % 60 = (instant.seconds % 60).toNat := by
    simp only [secondsPerDay]
    omega
  simp only [read, text, String.toList_ofList, readChars, chars, List.append_assoc,
    List.cons_append]
  generalize Date.ofDayNumber (instant.seconds / secondsPerDay) = date at *
  generalize (instant.seconds % secondsPerDay).toNat = second at *
  simp only [secondsPerDay, nanosPerSecond] at *
  have seconds : second % 60 + instant.nanos / 1000000000 ≤ 60 := by omega
  simp only [year_exact _ _ years.1 years.2, bind, Except.bind,
    separator_mark '-' _ rfl, separator_mark ':' _ rfl,
    field_padded 1 12 _ _ from1 to12 (by decide), field_padded 1 31 _ _ from1' to31 (by decide),
    field_padded 0 23 (second / 3600) _ (Nat.zero_le _) (by omega) (by decide),
    field_padded 0 59 (second / 60 % 60) _ (Nat.zero_le _) (by omega) (by decide),
    field_padded 0 60 _ _ (Nat.zero_le _) seconds (by decide)]
  -- The fields of the time of day and the nanoseconds, put together again.
  have time : second / 3600 * 3600 + second / 60 % 60 * 60 +
      min (second % 60 + instant.nanos / 1000000000) 59 = second := by omega
  have rest : (instant.nanos % 1000000000 +
      if second % 60 + instant.nanos / 1000000000 = 60 then 1000000000 else 0) = instant.nanos := by
    split <;> omega
  simp only [decide_true, Bool.true_or, if_true, zulu, time, rest]
  exact made

/-- What is written for an instant is what is written for the one that it tells. -/
theorem text_told (instant : Instant) (held : instant.Representable) :
    text instant.told = text instant := by
  have nanos := held.nanos
  rw [Instant.told]
  split
  · next leap =>
      obtain ⟨leap, inside⟩ := leap
      simp only [nanosPerSecond] at nanos leap
      -- Inside a minute the next second is in the same minute, and so in the same day.
      have day : (instant.seconds + 1) / secondsPerDay = instant.seconds / secondsPerDay := by
        simp only [secondsPerDay]
        omega
      have next : ((instant.seconds + 1) % secondsPerDay).toNat =
          (instant.seconds % secondsPerDay).toNat + 1 := by
        simp only [secondsPerDay]
        omega
      have second : (instant.seconds % secondsPerDay).toNat % 60 ≠ 59 := by
        simp only [secondsPerDay]
        omega
      simp only [text, chars, day, next]
      generalize (instant.seconds % secondsPerDay).toNat = time at *
      have hour : (time + 1) / 3600 = time / 3600 := by omega
      have minute : (time + 1) / 60 = time / 60 := by omega
      have told : (time + 1) % 60 + (instant.nanos - nanosPerSecond) / nanosPerSecond =
          time % 60 + instant.nanos / nanosPerSecond := by
        simp only [nanosPerSecond]
        omega
      have fraction : (instant.nanos - nanosPerSecond) % nanosPerSecond =
          instant.nanos % nanosPerSecond := by
        simp only [nanosPerSecond]
        omega
      rw [hour, minute, told, fraction]
  · rfl

theorem padded_short (width n limit : Nat) (positive : 0 < limit) (narrow : width ≤ limit)
    (fits : n < 10 ^ limit) : (padded width n).length ≤ limit := by
  have digits := (Nat.length_toDigits_le_iff (b := 10) (by decide) positive).mpr fits
  rw [padded, List.length_append, List.length_replicate]
  omega

theorem yearText_short (year : Int) (low : leastYear ≤ year) (high : year ≤ greatestYear) :
    (yearText year).length ≤ 7 := by
  simp only [leastYear, greatestYear] at low high
  simp only [yearText]
  split
  · exact Nat.succ_le_succ (padded_short 4 _ 6 (by decide) (by decide) (by omega))
  · split
    · exact Nat.le_succ_of_le (padded_short 4 _ 6 (by decide) (by decide) (by omega))
    · exact Nat.succ_le_succ (padded_short 4 _ 6 (by decide) (by decide) (by omega))

theorem fractionText_short (nanos : Nat) (small : nanos < nanosPerSecond) :
    (fractionText nanos).length ≤ 10 := by
  simp only [nanosPerSecond] at small
  simp only [fractionText]
  split
  · exact Nat.zero_le _
  · split
    · exact Nat.succ_le_succ (padded_short 3 _ 9 (by decide) (by decide) (by omega))
    · split
      · exact Nat.succ_le_succ (padded_short 6 _ 9 (by decide) (by decide) (by omega))
      · exact Nat.succ_le_succ (padded_short 9 _ 9 (by decide) (by decide) (by omega))

theorem chars_short (instant : Instant) (sound : instant.Exact) :
    (chars instant).length ≤ 33 := by
  obtain ⟨⟨_, to12, _, upTo⟩, _⟩ := ofDayNumber_exact (instant.seconds / secondsPerDay)
  have to31 := Nat.le_trans upTo (daysInMonth_le _ _)
  obtain ⟨least, greatest⟩ := sound.years
  have fraction := fractionText_short _ (Nat.mod_lt instant.nanos (show 0 < nanosPerSecond by decide))
  have nanos := sound.nanos
  have two : ∀ n, n < 100 → (padded 2 n).length ≤ 2 := fun n small =>
    padded_short 2 n 2 (by decide) (by decide) small
  have inDay : (instant.seconds % secondsPerDay).toNat < secondsPerDay := by
    simp only [secondsPerDay]
    omega
  simp only [chars, List.length_append, List.length_cons, List.length_nil]
  generalize Date.ofDayNumber (instant.seconds / secondsPerDay) = date at *
  generalize (instant.seconds % secondsPerDay).toNat = second at *
  have year := yearText_short date.year least greatest
  have month := two date.month (by omega)
  have day := two date.day (by omega)
  simp only [secondsPerDay, nanosPerSecond] at *
  have hour := two (second / 3600) (by omega)
  have minute := two (second / 60 % 60) (by omega)
  have second := two (second % 60 + instant.nanos / 1000000000) (by omega)
  omega

end Rfc3339

end RingCache.Time
