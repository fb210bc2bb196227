import RingCache.Deflate.Huffman
import RingCache.Deflate.Token

/-!
The DEFLATE format. A stream is a list of blocks, each stored, or coded by the fixed codes or by
codes that the block describes. Streams are written as one block in the fixed codes.
-/

namespace RingCache.Deflate

-- Lengths and distances: a symbol stands for a range of numbers that begins at its base, and extra
-- bits choose within the range.
def lengthRanges : List (Nat × Nat) := [
  (3, 0), (4, 0), (5, 0), (6, 0), (7, 0), (8, 0), (9, 0), (10, 0), (11, 1), (13, 1), (15, 1),
  (17, 1), (19, 2), (23, 2), (27, 2), (31, 2), (35, 3), (43, 3), (51, 3), (59, 3), (67, 4),
  (83, 4), (99, 4), (115, 4), (131, 5), (163, 5), (195, 5), (227, 5), (258, 0)]

def distanceRanges : List (Nat × Nat) := [
  (1, 0), (2, 0), (3, 0), (4, 0), (5, 1), (7, 1), (9, 2), (13, 2), (17, 3), (25, 3), (33, 4),
  (49, 4), (65, 5), (97, 5), (129, 6), (193, 6), (257, 7), (385, 7), (513, 8), (769, 8),
  (1025, 9), (1537, 9), (2049, 10), (3073, 10), (4097, 11), (6145, 11), (8193, 12), (12289, 12),
  (16385, 13), (24577, 13)]

/-- The last range whose base is not above the number: its place, base and extra bits. -/
def rangeOf (ranges : List (Nat × Nat)) (n : Nat) : Nat × Nat × Nat :=
  (ranges.zipIdx.foldl
    (fun found ((base, extra), place) => if base ≤ n then (place, base, extra) else found)
    (0, 0, 0))

def endOfBlock : Nat := 256

def firstLengthSymbol : Nat := 257

def tokenBits : Token → List Bool
  | .literal octet => fixedWord octet.toNat
  | .copy length distance =>
      let (place, base, extra) := rangeOf lengthRanges length
      let (far, farBase, farExtra) := rangeOf distanceRanges distance
      fixedWord (firstLengthSymbol + place) ++ lowBits extra (length - base) ++
        fixedDistanceWord far ++ lowBits farExtra (distance - farBase)

def fixedHeader : List Bool := [true, true, false]

def compress (data : Bytes) : Bytes :=
  let sink := BitSink.empty.pushAll fixedHeader
  let sink := (tokens data).foldl (fun sink token => sink.pushAll (tokenBits token)) sink
  (sink.pushAll (fixedWord endOfBlock)).finish

def bits (width : Nat) (source : BitSource) : Except Fault (Nat × BitSource) :=
  match source.number width with
  | none => .error .incomplete
  | some result => .ok result

def inRange (ranges : List (Nat × Nat)) (place : Nat) (source : BitSource) :
    Except Fault (Nat × BitSource) :=
  match ranges[place]? with
  | none => .error .corrupt
  | some (base, extra) => do
      let (offset, source) ← bits extra source
      return (base + offset, source)

def readSymbols (literals distances : CodeTree) : (fuel : Nat) → Array UInt8 → BitSource →
    Except Fault (Array UInt8 × BitSource)
  | 0, _, _ => .error .incomplete
  | fuel + 1, out, source => do
      let (symbol, source) ← literals.decode source
      match compare symbol endOfBlock with
      | .lt => readSymbols literals distances fuel (out.push (UInt8.ofNat symbol)) source
      | .eq => return (out, source)
      | .gt =>
          let (length, source) ← inRange lengthRanges (symbol - firstLengthSymbol) source
          let (far, source) ← distances.decode source
          let (distance, source) ← inRange distanceRanges far source
          readSymbols literals distances fuel (copyBack distance length out) source

def readStored (out : Array UInt8) (source : BitSource) :
    Except Fault (Array UInt8 × BitSource) :=
  match source.aligned with
  | a :: b :: c :: d :: rest =>
      let length := Bytes.ofLittleEndian [a, b]
      if length + Bytes.ofLittleEndian [c, d] ≠ 65535 then .error .corrupt
      else
        let data := rest.take length
        if data.length < length then .error .incomplete
        else .ok (out ++ data.toArray, .ofBytes (rest.drop length))
  | _ => .error .incomplete

def lengthOrder : List Nat := [16, 17, 18, 0, 8, 7, 9, 6, 10, 5, 11, 4, 12, 3, 13, 2, 14, 1, 15]

def readNumbers (width : Nat) : (count : Nat) → BitSource → Except Fault (List Nat × BitSource)
  | 0, source => .ok ([], source)
  | count + 1, source => do
      let (n, source) ← bits width source
      let (rest, source) ← readNumbers width count source
      return (n :: rest, source)

def readLengths (tree : CodeTree) (total : Nat) : (fuel : Nat) → (seen : List Nat) → BitSource →
    Except Fault (List Nat × BitSource)
  | 0, _, _ => .error .corrupt
  | fuel + 1, seen, source =>
      if seen.length = total then .ok (seen.reverse, source)
      else if seen.length > total then .error .corrupt
      else do
        let (symbol, source) ← tree.decode source
        -- Symbols from 16 on repeat: the last length, or no length in two ranges of counts.
        if symbol < 16 then readLengths tree total fuel (symbol :: seen) source
        else if symbol = 16 then
          match seen with
          | [] => .error .corrupt
          | last :: _ =>
              let (extra, source) ← bits 2 source
              readLengths tree total fuel (List.replicate (3 + extra) last ++ seen) source
        else
          let (extra, source) ← bits (if symbol = 17 then 3 else 7) source
          let count := (if symbol = 17 then 3 else 11) + extra
          readLengths tree total fuel (List.replicate count 0 ++ seen) source

def readCodes (source : BitSource) : Except Fault (CodeTree × CodeTree × BitSource) := do
  let (literals, source) ← bits 5 source
  let (distances, source) ← bits 5 source
  let (lengths, source) ← bits 4 source
  let literals := literals + 257
  let distances := distances + 1
  if literals > 286 ∨ distances > 30 then .error .corrupt
  else
    let (given, source) ← readNumbers 3 (lengths + 4) source
    let named := lengthOrder.zip given
    let tree ← CodeTree.ofLengths
      ((List.range 19).map fun symbol => ((named.find? (·.1 = symbol)).map (·.2)).getD 0)
    let total := literals + distances
    let (all, source) ← readLengths tree total (total + 1) [] source
    let literalTree ← CodeTree.ofLengths (all.take literals)
    let distanceTree ← CodeTree.ofLengths (all.drop literals)
    return (literalTree, distanceTree, source)

def readBlocks : (fuel : Nat) → Array UInt8 → BitSource → Except Fault (Array UInt8 × BitSource)
  | 0, _, _ => .error .incomplete
  -- A block takes at least three bits, so the fuel outlasts the source.
  | fuel + 1, out, source => do
      let (last, source) ← bits 1 source
      let (kind, source) ← bits 2 source
      let (out, source) ← match kind with
        | 0 => readStored out source
        | 1 => readSymbols fixedTree fixedDistanceTree (source.bound + 1) out source
        | 2 => do
            let (literals, distances, source) ← readCodes source
            readSymbols literals distances (source.bound + 1) out source
        | _ => .error .corrupt
      if last = 1 then .ok (out, source) else readBlocks fuel out source

def decompress (octets : Bytes) : Except Fault (Array UInt8 × Bytes) := do
  let source := BitSource.ofBytes octets
  let (out, source) ← readBlocks (source.bound + 1) #[] source
  return (out, source.aligned)

end RingCache.Deflate
