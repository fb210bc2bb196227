import RingCache.Decimal.Binary64

/-!
The fewest decimal digits that read back to a double. The reals that round to a value form an
interval around it, whose ends belong to it when the significand is even. For one digit, then two,
and so on, the two neighbours of the value on that decimal grid are tried; the first grid with a
neighbour in the interval gives the digits, the nearer neighbour winning.
-/

namespace RingCache.Decimal

/-- `digits * 10 ^ exponent`, without trailing zeros. -/
structure Digits where
  digits : Nat
  exponent : Int
  deriving DecidableEq, Repr

/-- The reals that round to a finite magnitude, over the common denominator `unit`. -/
structure Interval where
  low : Nat
  value : Nat
  high : Nat
  unit : Nat
  closed : Bool

def interval (significand : Nat) (power : Int) : Interval :=
  -- Below a power of two the doubles are twice as dense as above it.
  let narrow := significand = Nat.pow 2 52 && power > Binary64.leastPower
  let up : Nat := if power < 0 then 1 else Nat.pow 2 power.toNat
  let down : Nat := if power < 0 then Nat.pow 2 (-power).toNat else 1
  { low := (4 * significand - (if narrow then 1 else 2)) * up
    value := 4 * significand * up
    high := (4 * significand + 2) * up
    unit := 4 * down
    closed := significand % 2 = 0 }

/-- `n * 10 ^ exponent * unit`, multiplied by `10 ^ shift` to make it whole. -/
def onGrid (n : Nat) (exponent : Int) (shift unit : Nat) : Nat :=
  n * Nat.pow 10 (exponent + shift).toNat * unit

def Interval.holds (i : Interval) (n : Nat) (exponent : Int) (shift : Nat) : Bool :=
  let point := onGrid n exponent shift i.unit
  let low := i.low * Nat.pow 10 shift
  let high := i.high * Nat.pow 10 shift
  if i.closed then low ≤ point && point ≤ high else low < point && point < high

/-- The neighbour of the value on the grid of `10 ^ exponent` that reads back, if one does. -/
def Interval.onGrid? (i : Interval) (exponent : Int) : Option Nat :=
  let shift := (-exponent).toNat
  let value := i.value * Nat.pow 10 shift
  let step := onGrid 1 exponent shift i.unit
  let below := value / step
  let above := below + 1
  match i.holds below exponent shift && below != 0, i.holds above exponent shift with
  -- Both read back: the nearer wins, and of two equally near the even one.
  | true, true =>
      let left := value - below * step
      let right := above * step - value
      some (if right < left || (right = left && below % 2 = 1) then above else below)
  | true, false => some below
  | false, true => some above
  | false, false => none

def leading (num den : Nat) : Int :=
  let guess := ((Nat.toDigits 10 num).length : Int) - (Nat.toDigits 10 den).length
  let reaches :=
    if guess < 0 then num * Nat.pow 10 (-guess).toNat ≥ den else num ≥ den * Nat.pow 10 guess.toNat
  if reaches then guess else guess - 1

def Interval.search (i : Interval) (exponent : Int) : (left : Nat) → Nat × Int
  -- Seventeen digits always read back, so this case is never reached.
  | 0 => (i.value, 0)
  | left + 1 => match i.onGrid? exponent with
    | some n => (n, exponent)
    | none => i.search (exponent - 1) left

def strip (n : Nat) (exponent : Int) : (fuel : Nat) → Digits
  | 0 => ⟨n, exponent⟩
  | fuel + 1 => if n ≠ 0 ∧ n % 10 = 0 then strip (n / 10) (exponent + 1) fuel else ⟨n, exponent⟩

def shortest (significand : Nat) (power : Int) : Digits :=
  let i := interval significand power
  let (n, exponent) := i.search (leading i.value i.unit) 17
  strip n exponent 20

def zeros (n : Nat) : List Char := List.replicate n '0'

def positional (d : Digits) : List Char :=
  let text := Nat.toDigits 10 d.digits
  if d.exponent ≥ 0 then text ++ zeros d.exponent.toNat
  else
    let places := (-d.exponent).toNat
    if text.length > places then
      text.take (text.length - places) ++ '.' :: text.drop (text.length - places)
    else '0' :: '.' :: zeros (places - text.length) ++ text

def scientific (d : Digits) : List Char :=
  let text := Nat.toDigits 10 d.digits
  let exponent : Int := d.exponent + text.length - 1
  let mantissa := match text with
    | first :: second :: rest => first :: '.' :: second :: rest
    | short => short
  let sign := if exponent < 0 then '-' else '+'
  mantissa ++ 'e' :: sign :: Nat.toDigits 10 exponent.natAbs

def plain (x : Binary64) : String :=
  match x with
  | .nan => "NaN"
  | .infinite negative => if negative then "-inf" else "inf"
  | .finite negative m p =>
      let body := if m = 0 then ['0'] else positional (shortest m p)
      String.ofList (if negative then '-' :: body else body)

structure Thresholds where
  leastExponent : Int
  exponentLimit : Int

def documentThresholds : Thresholds := ⟨-5, 16⟩

/-- Document notation: a whole number keeps `.0`, and very large or small magnitudes take an
exponent. No number and the infinities, which no document holds, are written as `null`. -/
def document (x : Binary64) : String :=
  match x with
  | .nan => "null"
  | .infinite _ => "null"
  | .finite negative m p =>
      let body :=
        if m = 0 then ['0', '.', '0']
        else
          let d := shortest m p
          let exponent : Int := d.exponent + (Nat.toDigits 10 d.digits).length - 1
          if documentThresholds.leastExponent ≤ exponent ∧
              exponent < documentThresholds.exponentLimit then
            positional d ++ (if d.exponent ≥ 0 then ['.', '0'] else [])
          else scientific d
      String.ofList (if negative then '-' :: body else body)

end RingCache.Decimal
