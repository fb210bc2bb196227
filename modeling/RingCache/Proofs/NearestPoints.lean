import Mathlib.Data.Prod.Lex
import RingCache.Proofs.RingOwners

/-!
Nearest points. The hashes lie on a circle of 2^32 places, and going up from a hash and around, each
virtual point lies at some distance. A hash belongs to the node with the nearest point, and of nodes
with equally near points to the one that stands first in the list. Sorting and searching the points
have no part in what is said here, so it holds of hashes on a point, past the last point, and of points
that share a hash.
-/

namespace RingCache.Cluster

/-- How far a point lies ahead of a hash on the circle. -/
def clockwise (hash point : UInt32) : ℤ := ((point.toNat : ℤ) - hash.toNat) % UInt32.size

theorem clockwise_injective (hash : UInt32) {a b : UInt32}
    (same : clockwise hash a = clockwise hash b) : a = b := by
  have fits := a.toNat_lt
  have otherFits := b.toNat_lt
  rw [← UInt32.toNat_inj]
  simp only [clockwise, UInt32.size] at same
  omega

theorem Point.ahead_eq_clockwise (hash : UInt32) (point : Point) :
    (point.ahead hash : ℤ) = clockwise hash point.hash := by
  have low := hash.toNat_lt
  have high := point.hash.toNat_lt
  simp only [ahead_eq, clockwise, UInt32.size, UInt32.le_iff_toNat_le]
  split <;> omega

theorem Point.precedes_iff (hash : UInt32) (a b : Point) : a.Precedes hash b ↔
    toLex (clockwise hash a.hash, a.node) ≤ toLex (clockwise hash b.hash, b.node) := by
  simp only [Prod.Lex.toLex_le_toLex, ← ahead_eq_clockwise, Int.ofNat_lt, Int.natCast_inj]
  rfl

namespace Ring

/-- A virtual point by its node's place in the list and its number among the points of the node. -/
abbrev Slot (ids : List NodeId) (virtualNodes : Nat) := Fin ids.length × Fin virtualNodes

variable {ids : List NodeId} {virtualNodes : Nat}

namespace Slot

def label (slot : Slot ids virtualNodes) : String := pointLabel ids[slot.1] slot.2

def point (slot : Slot ids virtualNodes) : Point := ⟨hashKey slot.label, slot.1⟩

/-- What slots are ordered by as seen from a hash: the distance first, then the place in the list. -/
def rank (hash : UInt32) (slot : Slot ids virtualNodes) : ℤ ×ₗ ℕ :=
  toLex (clockwise hash (hashKey slot.label), slot.1.val)

end Slot

theorem mem_points_iff_slot (point : Point) : point ∈ (build ids virtualNodes).points ↔
    ∃ slot : Slot ids virtualNodes, slot.point = point := by
  rw [mem_points]
  constructor
  · rintro ⟨id, found, index, below, hashed⟩
    obtain ⟨inside, atPlace⟩ := List.getElem?_eq_some_iff.mp found
    refine ⟨(⟨point.node, inside⟩, ⟨index, below⟩), ?_⟩
    rw [Slot.point, Slot.label, Fin.getElem_fin, atPlace, ← hashed]
  · rintro ⟨slot, rfl⟩
    exact ⟨_, List.getElem?_eq_getElem slot.1.isLt, slot.2, slot.2.isLt, rfl⟩

theorem owner_eq_none_iff (hash : UInt32) :
    (build ids virtualNodes).owner hash = none ↔ ids = [] ∨ virtualNodes = 0 := by
  rcases Nat.eq_zero_or_pos virtualNodes with rfl | positive
  · have pointless : (build ids 0).points = [] := by
      refine List.eq_nil_iff_forall_not_mem.mpr fun point member => ?_
      obtain ⟨slot, _⟩ := (mem_points_iff_slot point).mp member
      exact slot.2.elim0
    simp [owner, pointAt_none_iff, pointless]
  · simp [owner_none_iff ids virtualNodes positive, positive.ne']

theorem owner_eq_some_iff (hash : UInt32) (node : Nat) :
    (build ids virtualNodes).owner hash = some node ↔
      ∃ nearest : Slot ids virtualNodes, nearest.1.val = node ∧
        ∀ slot : Slot ids virtualNodes, nearest.rank hash ≤ slot.rank hash := by
  rw [owner_iff]
  constructor
  · rintro ⟨point, member, rfl, first⟩
    obtain ⟨nearest, rfl⟩ := (mem_points_iff_slot point).mp member
    refine ⟨nearest, rfl, fun slot => ?_⟩
    exact (Point.precedes_iff ..).mp (first slot.point ((mem_points_iff_slot _).mpr ⟨slot, rfl⟩))
  · rintro ⟨nearest, rfl, least⟩
    refine ⟨nearest.point, (mem_points_iff_slot _).mpr ⟨nearest, rfl⟩, rfl, fun point member => ?_⟩
    obtain ⟨slot, rfl⟩ := (mem_points_iff_slot point).mp member
    exact (Point.precedes_iff ..).mpr (least slot)

/-- A ring without points owns nothing; on any other the owner of a hash is the place of the slot of
least rank. -/
theorem owner_nearest (ids : List NodeId) (virtualNodes : Nat) (hash : UInt32) :
    ((build ids virtualNodes).owner hash = none ↔ ids = [] ∨ virtualNodes = 0) ∧
      ∀ node, (build ids virtualNodes).owner hash = some node ↔
        ∃ nearest : Slot ids virtualNodes, nearest.1.val = node ∧
          ∀ slot : Slot ids virtualNodes, nearest.rank hash ≤ slot.rank hash :=
  ⟨owner_eq_none_iff hash, owner_eq_some_iff hash⟩

-- A hash on a point belongs to that point and the next hash to the next point. Past the last point
-- it is the first one again, which two entries share.
example : (build fourIds 1).owner 2908762168 = some 0 ∧
    (build fourIds 1).owner 2908762169 = some 3 ∧ (build fourIds 1).owner 3699991706 = some 1 := by
  rw [build_fourIds]
  decide

end Ring

end RingCache.Cluster
