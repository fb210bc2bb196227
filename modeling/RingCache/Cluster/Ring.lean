import RingCache.NodeId

/-!
The hash ring. Every node has virtual points, the hashes of its id with a number behind it; a key
belongs to the first point at or past the key's hash, and past the last point to the first one.
Points with one hash are in the order of the node list.
-/

namespace RingCache.Cluster

def hashBasis : UInt32 := 0x811C9DC5

def hashPrime : UInt32 := 0x01000193

def hashStep (hash : UInt32) (octet : UInt8) : UInt32 := (hash ^^^ octet.toUInt32) * hashPrime

def hashBytes (octets : Bytes) : UInt32 := octets.foldl hashStep hashBasis

def hashKey (key : String) : UInt32 := hashBytes (Bytes.ofString key)

structure Point where
  hash : UInt32
  node : Nat
  deriving DecidableEq, Repr

def Point.le (a b : Point) : Bool := a.hash < b.hash || (a.hash = b.hash && a.node ≤ b.node)

structure Ring where
  points : List Point
  deriving DecidableEq, Repr

def pointLabel (id : NodeId) (index : Nat) : String := s!"{id.name}-{index}"

namespace Ring

def empty : Ring := ⟨[]⟩

def pointsOf (virtualNodes : Nat) (id : NodeId) (node : Nat) : List Point :=
  (List.range virtualNodes).map fun index => ⟨hashKey (pointLabel id index), node⟩

def build (ids : List NodeId) (virtualNodes : Nat) : Ring :=
  ⟨(ids.zipIdx.flatMap fun (id, node) => pointsOf virtualNodes id node).mergeSort Point.le⟩

def pointAt (ring : Ring) (hash : UInt32) : Option Point :=
  -- Past the last point the ring starts again.
  (ring.points.find? fun point => hash ≤ point.hash).or ring.points.head?

def owner (ring : Ring) (hash : UInt32) : Option Nat := (ring.pointAt hash).map Point.node

def ownerOf (ring : Ring) (key : String) : Option Nat := ring.owner (hashKey key)

def size (ring : Ring) : Nat := ring.points.length

end Ring

end RingCache.Cluster
