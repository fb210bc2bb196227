import RingCache.Bytes

/-!
Octets as a sequence of bits, the least significant bit of an octet first. A source is read bit by
bit; a sink takes bits and fills octets, and its last octet is completed with zeros.
-/

namespace RingCache.Deflate

/-- The unread octets; `used` bits of the first one are read already. -/
structure BitSource where
  octets : Bytes
  used : Nat

namespace BitSource

def ofBytes (octets : Bytes) : BitSource := ⟨octets, 0⟩

def next : BitSource → Option (Bool × BitSource)
  | ⟨[], _⟩ => none
  | ⟨octet :: rest, used⟩ =>
      some (octet.toNat.testBit used,
        if used ≥ 7 then ⟨rest, 0⟩ else ⟨octet :: rest, used + 1⟩)

def number : (width : Nat) → BitSource → Option (Nat × BitSource)
  | 0, source => some (0, source)
  | width + 1, source => do
      let (bit, source) ← source.next
      let (high, source) ← number width source
      return (bit.toNat + 2 * high, source)

def aligned (source : BitSource) : Bytes :=
  if source.used = 0 then source.octets else source.octets.tail

def bound (source : BitSource) : Nat := 8 * source.octets.length

end BitSource

/-- Full octets, last first, and the bits of the octet being filled. -/
structure BitSink where
  octets : Bytes
  filling : Nat
  used : Nat

namespace BitSink

def empty : BitSink := ⟨[], 0, 0⟩

def push (sink : BitSink) (bit : Bool) : BitSink :=
  let filling := sink.filling + bit.toNat * Nat.pow 2 sink.used
  if sink.used ≥ 7 then ⟨UInt8.ofNat filling :: sink.octets, 0, 0⟩
  else ⟨sink.octets, filling, sink.used + 1⟩

def pushAll (sink : BitSink) (bits : List Bool) : BitSink := bits.foldl push sink

def finish (sink : BitSink) : Bytes :=
  (if sink.used = 0 then sink.octets else UInt8.ofNat sink.filling :: sink.octets).reverse

end BitSink

def lowBits (width n : Nat) : List Bool := (List.range width).map n.testBit

def highBits (width n : Nat) : List Bool := (lowBits width n).reverse

end RingCache.Deflate
