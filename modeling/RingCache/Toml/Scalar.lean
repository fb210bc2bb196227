import RingCache.Bytes
import RingCache.Decimal.Binary64
import RingCache.Time.Civil
import RingCache.Toml.Basic

/-!
Texts, numbers and dates of TOML. Each reader takes characters from the front and gives the rest.
A date or time is kept as its canonical text.
-/

namespace RingCache.Toml

def isControl (c : Char) : Bool := c.toNat < 32 || c.toNat = 127

def isPrintable (c : Char) : Bool := c = '\t' || !isControl c

def isDigit (c : Char) : Bool := '0' ≤ c && c ≤ '9'

def skipBlank (chars : List Char) : List Char := chars.dropWhile fun c => c = ' ' || c = '\t'

def lineEnd? : List Char → Option (List Char)
  | '\n' :: rest => some rest
  | '\r' :: '\n' :: rest => some rest
  | _ => none

def scalarValue? (digits : List Char) : Option Char := do
  let values ← digits.mapM Bytes.hexValue
  let n := values.foldl (fun n d => n * 16 + d) 0
  if h : n.isValidChar then some (Char.ofNatAux n h) else none

def escape : List Char → Option (Char × List Char)
  | 'b' :: rest => some (Char.ofNat 8, rest)
  | 't' :: rest => some ('\t', rest)
  | 'n' :: rest => some ('\n', rest)
  | 'f' :: rest => some (Char.ofNat 12, rest)
  | 'r' :: rest => some ('\r', rest)
  | '"' :: rest => some ('"', rest)
  | '\\' :: rest => some ('\\', rest)
  | 'u' :: a :: b :: c :: d :: rest => (scalarValue? [a, b, c, d]).map (·, rest)
  | 'U' :: a :: b :: c :: d :: e :: f :: g :: h :: rest =>
      (scalarValue? [a, b, c, d, e, f, g, h]).map (·, rest)
  | _ => none

def basicText : (fuel : Nat) → (seen : List Char) → List Char → Option (String × List Char)
  | 0, _, _ => none
  | fuel + 1, seen, chars => match chars with
    | '"' :: rest => some (String.ofList seen.reverse, rest)
    | '\\' :: rest => do
        let (c, rest) ← escape rest
        basicText fuel (c :: seen) rest
    | c :: rest => if isPrintable c then basicText fuel (c :: seen) rest else none
    | [] => none

def literalText (seen : List Char) : List Char → Option (String × List Char)
  | '\'' :: rest => some (String.ofList seen.reverse, rest)
  | c :: rest => if isPrintable c then literalText (c :: seen) rest else none
  | [] => none

def skipLines : (fuel : Nat) → List Char → List Char
  | 0, chars => chars
  | fuel + 1, chars =>
      let chars := skipBlank chars
      match lineEnd? chars with
      | some rest => skipLines fuel rest
      | none => chars

/-- The quotes at the front of a text of several lines: three close it, and up to two more belong
to it. -/
def closing (quote : Char) (seen chars : List Char) : Option (Option (String × List Char)) :=
  let count := (chars.takeWhile (· = quote)).length
  if count < 3 then none
  else if count > 5 then some none
  else some (some (String.ofList (seen.reverse ++ List.replicate (count - 3) quote),
    chars.drop count))

def longText (quote : Char) : (fuel : Nat) → (seen : List Char) → List Char →
    Option (String × List Char)
  | 0, _, _ => none
  | fuel + 1, seen, chars =>
      match closing quote seen chars with
      | some result => result
      | none => match lineEnd? chars with
        | some rest => longText quote fuel ('\n' :: seen) rest
        | none => match chars with
          | [] => none
          | '\\' :: rest =>
              if quote = '\'' then longText quote fuel ('\\' :: seen) rest
              else match lineEnd? (skipBlank rest) with
                | some after => longText quote fuel seen (skipLines (after.length + 1) after)
                | none => do
                    let (c, rest) ← escape rest
                    longText quote fuel (c :: seen) rest
          | c :: rest => if isPrintable c then longText quote fuel (c :: seen) rest else none

def afterOpening (chars : List Char) : List Char := (lineEnd? chars).getD chars

def quotedText (chars : List Char) : Option (String × List Char) :=
  match chars with
  | '"' :: '"' :: '"' :: rest => longText '"' (rest.length + 1) [] (afterOpening rest)
  | '\'' :: '\'' :: '\'' :: rest => longText '\'' (rest.length + 1) [] (afterOpening rest)
  | '"' :: rest => basicText (rest.length + 1) [] rest
  | '\'' :: rest => literalText [] rest
  | _ => none

def takeSign : List Char → Bool × List Char
  | '-' :: rest => (true, rest)
  | '+' :: rest => (false, rest)
  | rest => (false, rest)

def digitRun (isDigit : Char → Bool) : List Char → Option (List Char × List Char)
  | c :: '_' :: rest =>
      if isDigit c then do
        let (digits, after) ← digitRun isDigit rest
        return (c :: digits, after)
      else none
  | c :: next :: rest =>
      if !isDigit c then none
      else if isDigit next then do
        let (digits, after) ← digitRun isDigit (next :: rest)
        return (c :: digits, after)
      else some ([c], next :: rest)
  | [c] => if isDigit c then some ([c], []) else none
  | [] => none

def numberOf (base : Nat) (digits : List Char) : Nat :=
  digits.foldl (fun n c => n * base + (Bytes.hexValue c).getD 0) 0

def isDigitOf (base : Nat) (c : Char) : Bool :=
  match Bytes.hexValue c with
  | some value => value < base
  | none => false

def boundedInt (value : Int) : Option Scalar :=
  if -9223372036854775808 ≤ value ∧ value ≤ 9223372036854775807 then some (.int value) else none

def fractionPart : List Char → Option (List Char × List Char)
  | '.' :: rest => digitRun isDigit rest
  | rest => some ([], rest)

def exponentPart (chars : List Char) : Option (Option Int × List Char) :=
  match chars with
  | c :: rest =>
      if c = 'e' || c = 'E' then do
        let (negative, rest) := takeSign rest
        let (digits, rest) ← digitRun isDigit rest
        let value : Int := numberOf 10 digits
        return (some (if negative then -value else value), rest)
      else some (none, chars)
  | [] => some (none, [])

def decimalNumber (negative : Bool) (chars : List Char) : Option (Scalar × List Char) := do
  let (whole, rest) ← digitRun isDigit chars
  if whole.length > 1 ∧ whole.head? = some '0' then none
  else
    let (fraction, after) ← fractionPart rest
    let (exponent, after) ← exponentPart after
    if fraction.isEmpty ∧ exponent.isNone then
      let value : Int := numberOf 10 whole
      let scalar ← boundedInt (if negative then -value else value)
      return (scalar, after)
    else
      let digits := numberOf 10 (whole ++ fraction)
      match Binary64.ofDecimal negative digits (exponent.getD 0 - fraction.length) with
      | .finite n m p => return (.float (.finite n m p), after)
      | _ => none

def number (chars : List Char) : Option (Scalar × List Char) :=
  let based (base : Nat) (rest : List Char) : Option (Scalar × List Char) := do
    let (digits, rest) ← digitRun (isDigitOf base) rest
    return (← boundedInt (numberOf base digits), rest)
  match chars with
  | '0' :: 'x' :: rest => based 16 rest
  | '0' :: 'o' :: rest => based 8 rest
  | '0' :: 'b' :: rest => based 2 rest
  | _ =>
      let (negative, rest) := takeSign chars
      match rest with
      | 'i' :: 'n' :: 'f' :: rest => some (.float (.infinite negative), rest)
      | 'n' :: 'a' :: 'n' :: rest => some (.float .nan, rest)
      | _ => decimalNumber negative rest

def twoDigits (low high : Nat) : List Char → Option (List Char × List Char)
  | a :: b :: rest =>
      let value := numberOf 10 [a, b]
      if isDigit a && isDigit b && low ≤ value && value ≤ high then some ([a, b], rest) else none
  | _ => none

def date (chars : List Char) : Option (List Char × List Char) :=
  match chars with
  | a :: b :: c :: d :: '-' :: rest => do
      if !([a, b, c, d].all isDigit) then none
      let (month, rest) ← twoDigits 1 12 rest
      match rest with
      | '-' :: rest =>
          let (day, rest) ← twoDigits 1 31 rest
          let year : Int := numberOf 10 [a, b, c, d]
          if numberOf 10 day > Time.daysInMonth year (numberOf 10 month) then none
          return ([a, b, c, d, '-'] ++ month ++ '-' :: day, rest)
      | _ => none
  | _ => none

/-- The fraction of a second: nine digits count, and zeros at its end are not written. -/
def secondFraction : List Char → Option (List Char × List Char)
  | '.' :: rest =>
      let digits := rest.takeWhile isDigit
      if digits.isEmpty then none
      else
        let kept := ((digits.take 9).reverse.dropWhile (· = '0')).reverse
        some (if kept.isEmpty then [] else '.' :: kept, rest.drop digits.length)
  | rest => some ([], rest)

def timeOfDay (chars : List Char) : Option (List Char × List Char) := do
  let (hour, rest) ← twoDigits 0 23 chars
  match rest with
  | ':' :: rest =>
      let (minute, rest) ← twoDigits 0 59 rest
      match rest with
      | ':' :: rest =>
          let (second, rest) ← twoDigits 0 60 rest
          let (fraction, rest) ← secondFraction rest
          return (hour ++ ':' :: minute ++ ':' :: second ++ fraction, rest)
      | _ => none
  | _ => none

def timeOffset (chars : List Char) : Option (List Char × List Char) :=
  match chars with
  | c :: rest =>
      if c = 'Z' || c = 'z' then some (['Z'], rest)
      else if c = '+' || c = '-' then do
        let (hour, rest) ← twoDigits 0 23 rest
        match rest with
        | ':' :: rest =>
            let (minute, rest) ← twoDigits 0 59 rest
            return (c :: hour ++ ':' :: minute, rest)
        | _ => none
      else some ([], chars)
  | [] => some ([], [])

def moment (chars : List Char) : Option (Scalar × List Char) :=
  match chars with
  | _ :: _ :: ':' :: _ => do
      let (text, rest) ← timeOfDay chars
      return (.text (String.ofList text), rest)
  | _ => do
      let (day, rest) ← date chars
      let joined := match rest with
        | c :: next :: _ => c = 'T' || c = 't' || (c = ' ' && isDigit next)
        | _ => false
      if joined then
        let (time, rest) ← timeOfDay rest.tail
        let (offset, rest) ← timeOffset rest
        return (.text (String.ofList (day ++ 'T' :: time ++ offset)), rest)
      else return (.text (String.ofList day), rest)

def looksLikeMoment (chars : List Char) : Bool :=
  match chars with
  | a :: b :: ':' :: _ => isDigit a && isDigit b
  | a :: b :: c :: d :: '-' :: _ => [a, b, c, d].all isDigit
  | _ => false

def bareScalar (chars : List Char) : Option (Scalar × List Char) :=
  match chars with
  | 't' :: 'r' :: 'u' :: 'e' :: rest => some (.bool true, rest)
  | 'f' :: 'a' :: 'l' :: 's' :: 'e' :: rest => some (.bool false, rest)
  | _ => if looksLikeMoment chars then moment chars else number chars

end RingCache.Toml
