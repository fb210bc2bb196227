import RingCache.Deflate.Bits

/-!
Canonical prefix codes. A code is given by the length of each symbol's word; words of one length are
consecutive numbers in the order of the symbols, and shorter words come first. The words are kept as
a binary tree, which is walked bit by bit.
-/

namespace RingCache.Deflate

inductive Fault where
  | incomplete
  | corrupt
  deriving DecidableEq, Repr

inductive CodeTree where
  | empty
  | leaf (symbol : Nat)
  | node (zero one : CodeTree)
  deriving Inhabited

namespace CodeTree

def insert (symbol : Nat) : (word : List Bool) → CodeTree → CodeTree
  | [], _ => .leaf symbol
  | bit :: word, tree =>
      let (zero, one) := match tree with
        | .node zero one => (zero, one)
        | _ => (.empty, .empty)
      if bit then .node zero (insert symbol word one) else .node (insert symbol word zero) one

def decode : CodeTree → BitSource → Except Fault (Nat × BitSource)
  | .empty, _ => .error .corrupt
  | .leaf symbol, source => .ok (symbol, source)
  | .node zero one, source => match source.next with
    | none => .error .incomplete
    | some (true, source) => one.decode source
    | some (false, source) => zero.decode source

end CodeTree

def maxWordLength : Nat := 15

def countOf (lengths : List Nat) (length : Nat) : Nat := lengths.count length

def firstWord (lengths : List Nat) : (length : Nat) → Nat
  | 0 => 0
  | length + 1 =>
      2 * (firstWord lengths length + if length = 0 then 0 else countOf lengths length)

/-- Symbols with their words; a symbol of length 0 has none. `next` holds the next free word of each
length. -/
def assign (next : Array Nat) : (symbol : Nat) → List Nat → List (Nat × List Bool)
  | _, [] => []
  | symbol, 0 :: lengths => assign next (symbol + 1) lengths
  | symbol, length :: lengths =>
      let word := next.getD length 0
      (symbol, highBits length word) ::
        assign (next.setIfInBounds length (word + 1)) (symbol + 1) lengths

def codeWords (lengths : List Nat) : List (Nat × List Bool) :=
  assign ((List.range (maxWordLength + 1)).map (firstWord lengths)).toArray 0 lengths

def CodeTree.ofWords (words : List (Nat × List Bool)) : CodeTree :=
  words.foldl (fun tree (symbol, word) => tree.insert symbol word) .empty

/-- The share of all words that the lengths use up, in units of the longest word. -/
def kraftSum (lengths : List Nat) : Nat :=
  (lengths.map fun length => if length = 0 then 0 else Nat.pow 2 (maxWordLength - length)).foldl
    (· + ·) 0

/-- The tree of a code that uses every word exactly once, or has at most one symbol. -/
def CodeTree.ofLengths (lengths : List Nat) : Except Fault CodeTree :=
  let used := (lengths.filter (· ≠ 0)).length
  if kraftSum lengths = Nat.pow 2 maxWordLength ∨ used ≤ 1 then .ok (.ofWords (codeWords lengths))
  else .error .corrupt

def fixedLengths : List Nat :=
  List.replicate 144 8 ++ List.replicate 112 9 ++ List.replicate 24 7 ++ List.replicate 8 8

def fixedDistanceLengths : List Nat := List.replicate 32 5

def fixedWord (symbol : Nat) : List Bool :=
  if symbol < 144 then highBits 8 (0x30 + symbol)
  else if symbol < 256 then highBits 9 (0x190 + (symbol - 144))
  else if symbol < 280 then highBits 7 (symbol - 256)
  else highBits 8 (0xC0 + (symbol - 280))

def fixedDistanceWord (symbol : Nat) : List Bool := highBits 5 symbol

def fixedTree : CodeTree := .ofWords (codeWords fixedLengths)

def fixedDistanceTree : CodeTree := .ofWords (codeWords fixedDistanceLengths)

end RingCache.Deflate
