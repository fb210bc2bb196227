/-!
Double-precision numbers as exact values. A finite number is a significand below 2^53 times a power
of two that is at least -1074; the significand reaches 2^52 unless the power is the least one, so
each value has one form. Every operation is exact integer arithmetic followed by one rounding to
the nearest value, ties to the even significand.
-/

namespace RingCache

inductive Binary64 where
  | nan
  | infinite (negative : Bool)
  | finite (negative : Bool) (significand : Nat) (power : Int)
  deriving DecidableEq, Repr, Inhabited

namespace Binary64

def leastPower : Int := -1074

def zero : Binary64 := .finite false 0 leastPower

/-- A half goes to the even neighbour. -/
def roundDiv (num den : Nat) : Nat :=
  let quotient := num / den
  let twice := 2 * (num % den)
  if twice > den || (twice = den && quotient % 2 = 1) then quotient + 1 else quotient

def scaled (num den : Nat) (power : Int) : Nat × Nat :=
  if power < 0 then (num * Nat.pow 2 (-power).toNat, den) else (num, den * Nat.pow 2 power.toNat)

/-- The power that gives the quotient a significand of 53 bits, or the least power. -/
def powerFor (num den : Nat) : Int :=
  let guess := (Nat.log2 num : Int) - Nat.log2 den - 52
  let (n, d) := scaled num den guess
  max leastPower (if n / d < Nat.pow 2 52 then guess - 1 else guess)

def ofRatio (negative : Bool) (num den : Nat) : Binary64 :=
  if num = 0 then .finite negative 0 leastPower
  else
    let power := powerFor num den
    let (n, d) := scaled num den power
    let significand := roundDiv n d
    -- Rounding up may carry into a 54th bit.
    let (significand, power) :=
      if significand = Nat.pow 2 53 then (Nat.pow 2 52, power + 1) else (significand, power)
    if power > 971 then .infinite negative else .finite negative significand power

def ofNat (n : Nat) : Binary64 := ofRatio false n 1

def ratio (significand : Nat) (power : Int) : Nat × Nat :=
  if power < 0 then (significand, Nat.pow 2 (-power).toNat)
  else (significand * Nat.pow 2 power.toNat, 1)

def neg : Binary64 → Binary64
  | .nan => .nan
  | .infinite negative => .infinite !negative
  | .finite negative m p => .finite (!negative) m p

def isNegative : Binary64 → Bool
  | .nan => false
  | .infinite negative => negative
  | .finite negative _ _ => negative

def isZero : Binary64 → Bool
  | .finite _ 0 _ => true
  | _ => false

def mul : Binary64 → Binary64 → Binary64
  | .finite a m p, .finite b n q =>
      let (x, y) := ratio m p
      let (z, w) := ratio n q
      ofRatio (a != b) (x * z) (y * w)
  | .nan, _ => .nan
  | _, .nan => .nan
  | x, y => if x.isZero || y.isZero then .nan else .infinite (x.isNegative != y.isNegative)

def div : Binary64 → Binary64 → Binary64
  | .finite a m p, .finite b n q =>
      if n = 0 then (if m = 0 then .nan else .infinite (a != b))
      else
        let (x, y) := ratio m p
        let (z, w) := ratio n q
        ofRatio (a != b) (x * w) (y * z)
  | .nan, _ => .nan
  | _, .nan => .nan
  | .infinite _, .infinite _ => .nan
  | .infinite a, y => .infinite (a != y.isNegative)
  | x, .infinite b => .finite (x.isNegative != b) 0 leastPower

/-- The double nearest to `digits * 10 ^ exponent`. Exponents far outside the range of doubles are
answered without computing the power. -/
def ofDecimal (negative : Bool) (digits : Nat) (exponent : Int) : Binary64 :=
  let size := (Nat.log2 digits : Int)
  if digits = 0 then .finite negative 0 leastPower
  else if exponent > 310 then .infinite negative
  else if 10 * exponent + 4 * size < -4000 then .finite negative 0 leastPower
  else if exponent < 0 then ofRatio negative digits (Nat.pow 10 (-exponent).toNat)
  else ofRatio negative (digits * Nat.pow 10 exponent.toNat) 1

def roundAway (significand : Nat) (power : Int) : Nat :=
  let (n, d) := ratio significand power
  (2 * n + d) / (2 * d)

def clampInt (low high : Int) : Binary64 → Int
  | .nan => 0
  | .infinite negative => if negative then low else high
  | .finite negative m p =>
      let whole : Int := roundAway m p
      max low (min high (if negative then -whole else whole))

def bits : Binary64 → Nat
  | .nan => 0x7FF8000000000000
  | .infinite negative => (if negative then Nat.pow 2 63 else 0) + 0x7FF0000000000000
  | .finite negative m p =>
      (if negative then Nat.pow 2 63 else 0) +
        (if m < Nat.pow 2 52 then m else (p + 1075).toNat * Nat.pow 2 52 + (m - Nat.pow 2 52))

end Binary64

end RingCache
