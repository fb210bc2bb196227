import RingCache.Time.Civil

/-!
Points in time and lengths of time. An instant counts seconds from 1970-01-01T00:00:00Z and
nanoseconds within the second; the nanoseconds of a leap second continue past 10^9 in the second
before it. Instants are bounded by the years -262143 and 262142.
-/

namespace RingCache.Time

structure Instant where
  seconds : Int
  nanos : Nat
  deriving DecidableEq, Repr, Inhabited

structure Span where
  seconds : Nat
  nanos : Nat
  deriving DecidableEq, Repr, Inhabited

def nanosPerSecond : Nat := 1000000000

def secondsPerDay : Nat := 86400

namespace Span

def zero : Span := ⟨0, 0⟩

def ofSeconds (seconds : Nat) : Span := ⟨seconds, 0⟩

def ofMillis (ms : Nat) : Span := ⟨ms / 1000, ms % 1000 * 1000000⟩

def toNanos (span : Span) : Nat := span.seconds * nanosPerSecond + span.nanos

def toMillis (span : Span) : Nat := span.seconds * 1000 + span.nanos / 1000000

/-- The longest span that is added to an instant, which has 2^63 - 1 milliseconds. -/
def longestAddable : Span := .ofMillis 9223372036854775807

def isAddable (span : Span) : Bool := span.toNanos ≤ longestAddable.toNanos

def isZero (span : Span) : Bool := span.seconds = 0 && span.nanos = 0

def fraction (width n : Nat) : List Char :=
  let digits := Nat.toDigits 10 n
  let padded := List.replicate (width - digits.length) '0' ++ digits
  let kept := (padded.reverse.dropWhile (· = '0')).reverse
  if kept.isEmpty then [] else '.' :: kept

/-- The span in its largest unit with a nonzero whole part, with as many decimals as it needs. -/
def text (span : Span) : String :=
  let whole (n : Nat) := Nat.toDigits 10 n
  String.ofList <|
    if span.seconds > 0 then whole span.seconds ++ fraction 9 span.nanos ++ ['s']
    else if span.nanos ≥ 1000000 then
      whole (span.nanos / 1000000) ++ fraction 6 (span.nanos % 1000000) ++ ['m', 's']
    else if span.nanos ≥ 1000 then
      whole (span.nanos / 1000) ++ fraction 3 (span.nanos % 1000) ++ ['µ', 's']
    else whole span.nanos ++ ['n', 's']

end Span

namespace Instant

/-- The first instant of the year -262143. -/
def earliest : Instant := ⟨-8334601228800, 0⟩

/-- The last nanosecond of the year 262142. -/
def latest : Instant := ⟨8210266876799, 999999999⟩

def before (a b : Instant) : Bool :=
  a.seconds < b.seconds || (a.seconds = b.seconds && a.nanos < b.nanos)

theorem before_of_not_before {past now later : Instant} (passed : past.before now = true)
    (onward : later.before now = false) : past.before later = true := by
  simp only [before, Bool.or_eq_true, Bool.and_eq_true, Bool.or_eq_false_iff,
    Bool.and_eq_false_iff, decide_eq_true_eq, decide_eq_false_iff_not] at *
  omega

def later (start : Instant) (span : Span) : Instant :=
  let nanos := start.nanos + span.nanos
  ⟨start.seconds + span.seconds + (nanos / nanosPerSecond : Nat), nanos % nanosPerSecond⟩

def plus? (start : Instant) (span : Span) : Option Instant :=
  if !span.isAddable then none
  else
    let sum := start.later span
    if latest.before sum then none else some sum

def laterOrLatest (start : Instant) (span : Span) : Instant := (start.plus? span).getD latest

/-- One more or one less second when a leap second of one instant lies between the two, going by
their times of day. -/
def leapBetween (stop start : Instant) : Int :=
  let late := stop.seconds % secondsPerDay
  let early := start.seconds % secondsPerDay
  if early < late ∧ nanosPerSecond ≤ start.nanos then 1
  else if late < early ∧ nanosPerSecond ≤ stop.nanos then -1
  else 0

def millisSince (stop start : Instant) : Int :=
  ((stop.seconds - start.seconds + leapBetween stop start) * nanosPerSecond +
    (stop.nanos - start.nanos)).tdiv 1000000

def wholeMillis (instant : Instant) : Instant :=
  ⟨instant.seconds, instant.nanos / 1000000 * 1000000⟩

end Instant

end RingCache.Time
