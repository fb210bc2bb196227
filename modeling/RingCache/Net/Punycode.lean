import RingCache.Bytes

/-!
Punycode (RFC 3492): a label with characters above ASCII as a label in ASCII. The characters above
ASCII are written in increasing order as differences, each a number in base 36 whose digits have
thresholds that adapt to the differences seen so far.
-/

namespace RingCache.Net.Punycode

def digit (n : Nat) : Char := if n < 26 then Char.ofNat (97 + n) else Char.ofNat (22 + n)

def threshold (k bias : Nat) : Nat :=
  if k ≤ bias then 1 else if k ≥ bias + 26 then 26 else k - bias

def digits (bias : Nat) : (fuel : Nat) → (k n : Nat) → List Char
  | 0, _, _ => []
  | fuel + 1, k, n =>
      let t := threshold k bias
      if n < t then [digit n]
      else digit (t + (n - t) % (36 - t)) :: digits bias fuel (k + 36) ((n - t) / (36 - t))

def shrink : (fuel : Nat) → (delta k : Nat) → Nat
  | 0, _, k => k
  | fuel + 1, delta, k =>
      if delta > 455 then shrink fuel (delta / 35) (k + 36) else k + 36 * delta / (delta + 38)

def adapt (delta points : Nat) (first : Bool) : Nat :=
  let delta := if first then delta / 700 else delta / 2
  shrink 64 (delta + delta / points) 0

structure State where
  text : List Char
  delta : Nat
  bias : Nat
  handled : Nat

def visit (basic n : Nat) (state : State) (c : Char) : State :=
  if c.toNat < n then { state with delta := state.delta + 1 }
  else if c.toNat = n then
    { text := state.text ++ digits state.bias 64 36 state.delta
      delta := 0
      bias := adapt state.delta (state.handled + 1) (state.handled = basic)
      handled := state.handled + 1 }
  else state

def write (label : List Char) (basic : Nat) : List Nat → (floor : Nat) → State → List Char
  | [], _, state => state.text
  | n :: rest, floor, state =>
      let start := { state with delta := state.delta + (n - floor) * (state.handled + 1) }
      let state := label.foldl (visit basic n) start
      write label basic rest (n + 1) { state with delta := state.delta + 1 }

def encode (label : List Char) : List Char :=
  let basic := label.filter (·.toNat < 128)
  let points := ((label.filter (·.toNat ≥ 128)).map Char.toNat).mergeSort.eraseDups
  let start : State := ⟨[], 0, 72, basic.length⟩
  basic ++ (if basic.isEmpty then [] else ['-']) ++
    write label basic.length points 128 start

end RingCache.Net.Punycode
