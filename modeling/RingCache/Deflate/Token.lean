import RingCache.Bytes
import Std.Data.HashMap

/-!
Data as literal octets and copies of earlier data. Splitting data into tokens proposes the last
place with the same three octets and takes the copy that holds there; expanding the tokens gives
the data back.
-/

namespace RingCache.Deflate

inductive Token where
  | literal (octet : UInt8)
  | copy (length distance : Nat)
  deriving DecidableEq, Repr

def leastCopy : Nat := 3
def greatestCopy : Nat := 258
def greatestDistance : Nat := 32768

/-- The octet `distance` places before the end; zeros stand before the beginning. -/
def octetBack (distance : Nat) (out : Array UInt8) : UInt8 :=
  if distance ≤ out.size then out.getD (out.size - distance) 0 else 0

def copyBack (distance : Nat) : (length : Nat) → Array UInt8 → Array UInt8
  | 0, out => out
  | length + 1, out => copyBack distance length (out.push (octetBack distance out))

def expandToken (out : Array UInt8) : Token → Array UInt8
  | .literal octet => out.push octet
  | .copy length distance => copyBack distance length out

def expand (tokens : List Token) : Array UInt8 := tokens.foldl expandToken #[]

def agreement (data : Array UInt8) (here there : Nat) : (limit : Nat) → Nat
  | 0 => 0
  | limit + 1 =>
      if here < data.size ∧ data.getD here 0 = data.getD there 0 then
        1 + agreement data (here + 1) (there + 1) limit
      else 0

def signature (data : Array UInt8) (here : Nat) : Nat :=
  (data.getD here 0).toNat + 256 * (data.getD (here + 1) 0).toNat +
    65536 * (data.getD (here + 2) 0).toNat

abbrev Places := Std.HashMap Nat Nat

def note (data : Array UInt8) (here : Nat) : (count : Nat) → Places → Places
  | 0, places => places
  | count + 1, places =>
      note data (here + 1) count (places.insert (signature data here) here)

def copyAt (data : Array UInt8) (places : Places) (here : Nat) : Option (Nat × Nat) :=
  match places[signature data here]? with
  | none => none
  | some there =>
      if there < here ∧ here - there ≤ greatestDistance then
        let length := agreement data here there greatestCopy
        if length ≥ leastCopy then some (length, here - there) else none
      else none

def tokensFrom (data : Array UInt8) (places : Places) (here : Nat) (taken : List Token) :
    (fuel : Nat) → List Token
  | 0 => taken.reverse
  | fuel + 1 =>
      if here < data.size then
        match copyAt data places here with
        | some (length, distance) =>
            tokensFrom data (note data here length places) (here + length)
              (.copy length distance :: taken) fuel
        | none =>
            tokensFrom data (note data here 1 places) (here + 1)
              (.literal (data.getD here 0) :: taken) fuel
      else taken.reverse

def tokens (data : Bytes) : List Token :=
  let data := data.toArray
  tokensFrom data ∅ 0 [] data.size

end RingCache.Deflate
