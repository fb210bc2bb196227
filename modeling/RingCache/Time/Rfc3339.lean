import RingCache.Bytes
import RingCache.Time.Instant
import RingCache.Text.Blank

/-!
RFC 3339 text of instants. It is written in UTC, with a fraction of 0, 3, 6 or 9 digits, a leap
second as second 60, and a sign on years outside 0 to 9999. Reading is more lenient: blanks before
numbers and separators, `t` or a blank between date and time, further digits of the fraction, any
offset, and second 60 in any minute.
-/

namespace RingCache.Time

inductive DateFault where
  | outOfRange
  | impossible
  | invalid
  | tooShort
  | tooLong
  deriving DecidableEq, Repr

def DateFault.message : DateFault → String
  | .outOfRange => "input is out of range"
  | .impossible => "no possible date and time matching input"
  | .invalid => "input contains invalid characters"
  | .tooShort => "premature end of input"
  | .tooLong => "trailing input"

namespace Rfc3339

def padded (width n : Nat) : List Char :=
  let digits := Nat.toDigits 10 n
  List.replicate (width - digits.length) '0' ++ digits

def yearText (year : Int) : List Char :=
  if year < 0 then '-' :: padded 4 year.natAbs
  else if year ≤ 9999 then padded 4 year.toNat
  else '+' :: padded 4 year.toNat

def fractionText (nanos : Nat) : List Char :=
  if nanos = 0 then []
  else if nanos % 1000000 = 0 then '.' :: padded 3 (nanos / 1000000)
  else if nanos % 1000 = 0 then '.' :: padded 6 (nanos / 1000)
  else '.' :: padded 9 nanos

def chars (instant : Instant) : List Char :=
  let date := Date.ofDayNumber (instant.seconds / secondsPerDay)
  let second := (instant.seconds % secondsPerDay).toNat
  yearText date.year ++ '-' :: padded 2 date.month ++ '-' :: padded 2 date.day ++
    'T' :: padded 2 (second / 3600) ++ ':' :: padded 2 (second / 60 % 60) ++
    ':' :: padded 2 (second % 60 + instant.nanos / nanosPerSecond) ++
    fractionText (instant.nanos % nanosPerSecond) ++ ['Z']

def text (instant : Instant) : String := String.ofList (chars instant)

def isDigit (c : Char) : Bool := '0' ≤ c && c ≤ '9'

def digitValue (c : Char) : Nat := c.toNat - 48

def skipBlank (chars : List Char) : List Char := chars.dropWhile Text.isBlank

def numberLimit : Nat := Nat.pow 2 63

def moreDigits (value : Nat) : (width : Nat) → List Char → Except DateFault (Nat × List Char)
  | 0, rest => .ok (value, rest)
  | _ + 1, [] => .ok (value, [])
  | width + 1, c :: rest =>
      if !isDigit c then .ok (value, c :: rest)
      else
        let value := value * 10 + digitValue c
        if value < numberLimit then moreDigits value width rest else .error .outOfRange

def number (width : Nat) : List Char → Except DateFault (Nat × List Char)
  | [] => .error .tooShort
  | c :: rest => if isDigit c then moreDigits 0 width (c :: rest) else .error .invalid

def field (low high : Nat) (chars : List Char) : Except DateFault (Nat × List Char) := do
  let (value, rest) ← number 2 (skipBlank chars)
  if low ≤ value ∧ value ≤ high then .ok (value, rest) else .error .outOfRange

def year (chars : List Char) : Except DateFault (Int × List Char) := do
  let chars := skipBlank chars
  let (value, rest) ← (match chars with
    | '-' :: digits => do
        let (n, rest) ← number digits.length digits
        return (-(n : Int), rest)
    | '+' :: digits => do
        let (n, rest) ← number digits.length digits
        return ((n : Int), rest)
    | digits => do
        let (n, rest) ← number 4 digits
        return ((n : Int), rest) : Except DateFault (Int × List Char))
  if -2147483648 ≤ value ∧ value ≤ 2147483647 then return (value, rest) else .error .outOfRange

def separator (mark : Char) (chars : List Char) : Except DateFault (List Char) :=
  match skipBlank chars with
  | [] => .error .tooShort
  | c :: rest => if c = mark then .ok rest else .error .invalid

/-- The nanoseconds of a fraction: nine digits count, further digits are passed over. -/
def fraction : List Char → Except DateFault (Nat × List Char)
  | '.' :: chars => do
      let (value, rest) ← number 9 chars
      let read := chars.length - rest.length
      return (value * Nat.pow 10 (9 - read), rest.dropWhile isDigit)
  | chars => .ok (0, chars)

def pair (chars : List Char) : Except DateFault (Nat × List Char) :=
  match chars with
  | a :: b :: rest =>
      if isDigit a && isDigit b then .ok (digitValue a * 10 + digitValue b, rest)
      else .error .invalid
  | [a] => .error (if a.toNat < 128 then .tooShort else .invalid)
  | [] => .error .tooShort

def signedOffset (east : Bool) (chars : List Char) : Except DateFault (Int × List Char) := do
  let (hours, rest) ← pair chars
  let (minutes, rest) ← pair (rest.dropWhile fun c => c = ':' || Text.isBlank c)
  if minutes ≥ 60 then .error .outOfRange
  else
    let seconds : Int := hours * 3600 + minutes * 60
    return (if east then seconds else -seconds, rest)

def offset (chars : List Char) : Except DateFault (Int × List Char) :=
  match chars with
  | [] => .error .tooShort
  | c :: rest =>
      if c = 'Z' || c = 'z' then .ok (0, rest)
      else if c = '+' then signedOffset true rest
      else if c = '-' || c = '\u2212' then signedOffset false rest
      else .error .invalid

def zone (chars : List Char) : Except DateFault (Int × List Char) :=
  match chars with
  | a :: b :: c :: rest =>
      if a.toLower = 'u' ∧ b.toLower = 't' ∧ c.toLower = 'c' then .ok (0, rest)
      else offset chars
  | _ => offset chars

def leastYear : Int := -262143

def greatestYear : Int := 262142

def instantOf (date : Date) (secondOfDay : Nat) (nanos : Nat) (offset : Int) :
    Except DateFault Instant :=
  if ¬ date.Valid ∨ date.year < leastYear ∨ date.year > greatestYear then .error .outOfRange
  else if offset.natAbs ≥ secondsPerDay then .error .outOfRange
  else
    let seconds := date.dayNumber * secondsPerDay + secondOfDay - offset
    if seconds < Instant.earliest.seconds ∨ Instant.latest.seconds < seconds then
      .error .impossible
    else .ok ⟨seconds, nanos⟩

def readChars (chars : List Char) : Except DateFault Instant := do
  let (year, rest) ← year chars
  let rest ← separator '-' rest
  let (month, rest) ← field 1 12 rest
  let rest ← separator '-' rest
  let (day, rest) ← field 1 31 rest
  let rest ← match rest with
    | [] => .error .tooShort
    | c :: rest => if c = 'T' || c = 't' || c = ' ' then .ok rest else .error .invalid
  let (hour, rest) ← field 0 23 rest
  let rest ← separator ':' rest
  let (minute, rest) ← field 0 59 rest
  let rest ← separator ':' rest
  let (second, rest) ← field 0 60 rest
  let (nanos, rest) ← fraction rest
  let (offset, rest) ← zone (skipBlank rest)
  if !(skipBlank rest).isEmpty then .error .tooLong
  else
    -- A leap second is kept as second 59 with a whole second of nanoseconds on top.
    let leap := if second = 60 then nanosPerSecond else 0
    instantOf ⟨year, month, day⟩ (hour * 3600 + minute * 60 + min second 59) (nanos + leap) offset

def read (text : String) : Except DateFault Instant := readChars text.toList

end Rfc3339

end RingCache.Time
