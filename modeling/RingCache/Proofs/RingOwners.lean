import Mathlib.Data.Fin.VecNotation
import Mathlib.Order.Monotone.Basic
import RingCache.Cluster.Ring

/-!
Who owns a hash. The points of a ring are in one order, so going up from a hash and around there is
one point that is met first, and its node is the owner. What a node puts on the ring depends on its
id alone, and leaving nodes out keeps the others in their order: a hash keeps its owner unless that
node is left out.
-/

namespace RingCache.Cluster

namespace Point

theorem le_iff (a b : Point) :
    a.le b = true ↔ a.hash < b.hash ∨ a.hash = b.hash ∧ a.node ≤ b.node := by
  simp [le]

theorem le_trans (a b c : Point) (first : a.le b = true) (second : b.le c = true) :
    a.le c = true := by
  simp only [le_iff, UInt32.lt_iff_toNat_lt, ← UInt32.toNat_inj] at *
  omega

theorem le_total (a b : Point) : (a.le b || b.le a) = true := by
  simp only [Bool.or_eq_true, le_iff, UInt32.lt_iff_toNat_lt, ← UInt32.toNat_inj]
  omega

theorem le_antisymm (a b : Point) (first : a.le b = true) (second : b.le a = true) : a = b := by
  obtain ⟨hash, node⟩ := a
  obtain ⟨otherHash, otherNode⟩ := b
  simp only [le_iff, UInt32.lt_iff_toNat_lt, ← UInt32.toNat_inj, Point.mk.injEq] at *
  omega

def ahead (hash : UInt32) (point : Point) : Nat := (point.hash - hash).toNat

/-- Going up from a hash and around, `a` is met no later than `b`. -/
def Precedes (hash : UInt32) (a b : Point) : Prop :=
  a.ahead hash < b.ahead hash ∨ a.ahead hash = b.ahead hash ∧ a.node ≤ b.node

variable {hash : UInt32} {a b : Point}

theorem ahead_eq (hash : UInt32) (point : Point) : point.ahead hash =
    if hash ≤ point.hash then point.hash.toNat - hash.toNat
    else 4294967296 + point.hash.toNat - hash.toNat := by
  have low := hash.toNat_lt
  have high := point.hash.toNat_lt
  rw [ahead, UInt32.toNat_sub]
  simp only [UInt32.le_iff_toNat_le]
  split <;> omega

/-- On one side of the hash, points are met in the order of the ring. -/
theorem precedes_of_le (ordered : a.le b = true) (side : hash ≤ a.hash ∨ b.hash < hash) :
    a.Precedes hash b := by
  simp only [Precedes, ahead_eq]
  simp only [le_iff, UInt32.lt_iff_toNat_lt, UInt32.le_iff_toNat_le, ← UInt32.toNat_inj] at *
  have bound := hash.toNat_lt
  split <;> split <;> omega

/-- What lies before the hash is met after what does not. -/
theorem precedes_of_passed (ahead : hash ≤ a.hash) (passed : b.hash < hash) :
    a.Precedes hash b := by
  simp only [Precedes, ahead_eq]
  simp only [UInt32.lt_iff_toNat_lt, UInt32.le_iff_toNat_le] at *
  have bound := a.hash.toNat_lt
  split <;> split <;> omega

theorem precedes_antisymm (first : a.Precedes hash b) (second : b.Precedes hash a) : a = b := by
  have node : a.node = b.node := by unfold Precedes at *; omega
  have same : a.ahead hash = b.ahead hash := by unfold Precedes at *; omega
  have hashes : a.hash = b.hash := by
    simpa [ahead, UInt32.toNat_inj] using same
  cases a
  cases b
  simp_all

end Point

namespace Ring

variable (ids : List NodeId) (virtualNodes : Nat)

/-- A node's points are the hashes of its labels, at its place. -/
theorem mem_points (point : Point) : point ∈ (build ids virtualNodes).points ↔
    ∃ id, ids[point.node]? = some id ∧
      ∃ index < virtualNodes, point.hash = hashKey (pointLabel id index) := by
  obtain ⟨hash, node⟩ := point
  simp only [build, List.mem_mergeSort, List.mem_flatMap, Prod.exists,
    List.mk_mem_zipIdx_iff_getElem?, pointsOf, List.mem_map, List.mem_range, Point.mk.injEq]
  constructor
  · rintro ⟨id, place, found, index, below, rfl, rfl⟩
    exact ⟨id, found, index, below, rfl⟩
  · rintro ⟨id, found, index, below, rfl⟩
    exact ⟨id, node, found, index, below, rfl, rfl⟩

theorem node_lt (point : Point) (member : point ∈ (build ids virtualNodes).points) :
    point.node < ids.length := by
  obtain ⟨id, found, _⟩ := (mem_points ids virtualNodes point).mp member
  exact (List.getElem?_eq_some_iff.mp found).1

theorem points_ne_nil (nodes : ids ≠ []) (positive : 0 < virtualNodes) :
    (build ids virtualNodes).points ≠ [] := by
  cases ids with
  | nil => contradiction
  | cons id rest =>
      have first : ⟨hashKey (pointLabel id 0), 0⟩ ∈ (build (id :: rest) virtualNodes).points :=
        (mem_points _ _ _).mpr ⟨id, rfl, 0, positive, rfl⟩
      exact List.ne_nil_of_mem first

theorem points_perm : (build ids virtualNodes).points.Perm
    (ids.zipIdx.flatMap fun (id, node) => pointsOf virtualNodes id node) :=
  List.mergeSort_perm _ _

theorem points_sorted : (build ids virtualNodes).points.Pairwise fun a b => a.le b = true :=
  List.pairwise_mergeSort Point.le_trans Point.le_total _

/-- A ring is known by its points in their order, whatever sorts them. -/
theorem build_eq (points : List Point) (sorted : points.Pairwise fun a b => a.le b = true)
    (listed : points.Perm
      (ids.zipIdx.flatMap fun (id, node) => pointsOf virtualNodes id node)) :
    build ids virtualNodes = ⟨points⟩ := by
  have same := (points_perm ids virtualNodes).trans listed.symm
  have equal := same.eq_of_pairwise (fun a b _ _ => Point.le_antisymm a b)
    (points_sorted ids virtualNodes) sorted
  rw [← equal]

/-- The point that stands for a hash is the first one met from the hash on. -/
theorem pointAt_first (ring : Ring) (sorted : ring.points.Pairwise fun a b => a.le b = true)
    (hash : UInt32) (point : Point) (found : ring.pointAt hash = some point) :
    point ∈ ring.points ∧ ∀ other ∈ ring.points, point.Precedes hash other := by
  unfold pointAt at found
  cases past : ring.points.find? fun point => hash ≤ point.hash with
  | some first =>
      obtain rfl : first = point := by simpa [past] using found
      refine ⟨List.mem_of_find?_eq_some past, ?_⟩
      obtain ⟨here, before, behind, shape, passed⟩ := List.find?_eq_some_iff_append.mp past
      rw [shape, List.pairwise_append, List.pairwise_cons] at sorted
      intro other member
      rw [shape, List.mem_append, List.mem_cons] at member
      have ahead : hash ≤ first.hash := by simpa using here
      rcases member with early | rfl | later
      · exact Point.precedes_of_passed ahead (by simpa using passed other early)
      · exact .inr ⟨rfl, Nat.le_refl _⟩
      · exact Point.precedes_of_le (sorted.2.1.1 other later) (.inl ahead)
  | none =>
      -- Every point is passed, and the ring starts again.
      rw [past, Option.none_or] at found
      obtain ⟨rest, shape⟩ := List.head?_eq_some_iff.mp found
      rw [shape] at sorted past ⊢
      refine ⟨List.mem_cons_self, ?_⟩
      intro other member
      have passed : other.hash < hash := by
        simpa using List.find?_eq_none.mp past other member
      rcases List.mem_cons.mp member with rfl | later
      · exact .inr ⟨rfl, Nat.le_refl _⟩
      · exact Point.precedes_of_le ((List.pairwise_cons.mp sorted).1 other later) (.inr passed)

theorem pointAt_none_iff (ring : Ring) (hash : UInt32) :
    ring.pointAt hash = none ↔ ring.points = [] := by
  rw [pointAt, Option.or_eq_none_iff, List.head?_eq_none_iff]
  constructor
  · exact And.right
  · intro empty
    exact ⟨by rw [empty]; rfl, empty⟩

/-- A hash belongs to the node of the point that is met first. -/
theorem owner_iff (hash : UInt32) (node : Nat) :
    (build ids virtualNodes).owner hash = some node ↔
      ∃ point ∈ (build ids virtualNodes).points, point.node = node ∧
        ∀ other ∈ (build ids virtualNodes).points, point.Precedes hash other := by
  have met := pointAt_first (build ids virtualNodes) (points_sorted ids virtualNodes) hash
  rw [owner, Option.map_eq_some_iff]
  constructor
  · rintro ⟨point, found, named⟩
    obtain ⟨member, first⟩ := met point found
    exact ⟨point, member, named, first⟩
  · rintro ⟨point, member, named, first⟩
    cases found : (build ids virtualNodes).pointAt hash with
    | none =>
        rw [pointAt_none_iff] at found
        exact absurd found (List.ne_nil_of_mem member)
    | some other =>
        obtain ⟨otherMember, otherFirst⟩ := met other found
        have same := Point.precedes_antisymm (first other otherMember) (otherFirst point member)
        exact ⟨other, rfl, same ▸ named⟩

theorem owner_none_iff (positive : 0 < virtualNodes) (hash : UInt32) :
    (build ids virtualNodes).owner hash = none ↔ ids = [] := by
  rw [owner, Option.map_eq_none_iff, pointAt_none_iff]
  constructor
  · intro empty
    by_contra nodes
    exact points_ne_nil ids virtualNodes nodes positive empty
  · rintro rfl
    simp [build]

theorem owner_lt (hash : UInt32) (node : Nat)
    (owned : (build ids virtualNodes).owner hash = some node) : node < ids.length := by
  obtain ⟨point, member, rfl, _⟩ := (owner_iff ids virtualNodes hash node).mp owned
  exact node_lt ids virtualNodes point member

section Kept

variable {before after : List NodeId} {place : Fin after.length → Fin before.length}

theorem mem_points_kept (kept : ∀ i, after[i] = before[place i]) (hash : UInt32)
    (i : Fin after.length) : ⟨hash, i⟩ ∈ (build after virtualNodes).points ↔
      ⟨hash, place i⟩ ∈ (build before virtualNodes).points := by
  have sameId : after[i.val]? = before[(place i).val]? := by
    rw [List.getElem?_eq_getElem i.isLt, List.getElem?_eq_getElem (place i).isLt]
    exact congrArg some (kept i)
  simp only [mem_points, sameId]

/-- Of the hashes whose owner is kept, each keeps its owner. -/
theorem owner_kept (increasing : StrictMono place) (kept : ∀ i, after[i] = before[place i])
    (hash : UInt32) (i : Fin after.length)
    (owned : (build before virtualNodes).owner hash = some (place i).val) :
    (build after virtualNodes).owner hash = some i.val := by
  obtain ⟨⟨first, node⟩, member, rfl, precedes⟩ := (owner_iff before virtualNodes hash _).mp owned
  refine (owner_iff after virtualNodes hash _).mpr ⟨⟨first, i⟩, ?_, rfl, ?_⟩
  · exact (mem_points_kept virtualNodes kept first i).mpr member
  · intro ⟨other, otherNode⟩ otherMember
    -- The other point is on the former ring too, at the place that its node had there.
    let j : Fin after.length := ⟨otherNode, node_lt after virtualNodes _ otherMember⟩
    have was := (mem_points_kept virtualNodes kept other j).mp otherMember
    rcases precedes _ was with nearer | ⟨level, sooner⟩
    · exact .inl nearer
    · exact .inr ⟨level, increasing.le_iff_le.mp sooner⟩

/-- Leaving nodes out moves only the hashes that they owned, and putting them back moves a hash only
to one of them. -/
theorem minimal_disruption (increasing : StrictMono place)
    (kept : ∀ i, after[i] = before[place i]) (hash : UInt32) :
    (∀ i, (build before virtualNodes).owner hash = some (place i).val →
      (build after virtualNodes).owner hash = some i.val) ∧
    ∀ i, (build after virtualNodes).owner hash = some i.val →
      ∃ former : Fin before.length, (build before virtualNodes).owner hash = some former.val ∧
        (former = place i ∨ former ∉ Set.range place) := by
  have keeps := owner_kept virtualNodes increasing kept hash
  refine ⟨keeps, ?_⟩
  intro i owned
  obtain ⟨⟨first, node⟩, member, rfl, _⟩ := (owner_iff after virtualNodes hash _).mp owned
  have was := (mem_points_kept virtualNodes kept first i).mp member
  cases former : (build before virtualNodes).owner hash with
  | none =>
      rw [owner, Option.map_eq_none_iff, pointAt_none_iff] at former
      exact absurd former (List.ne_nil_of_mem was)
  | some node =>
      refine ⟨⟨node, owner_lt before virtualNodes hash node former⟩, rfl, ?_⟩
      -- A former owner that is kept still owns the hash, and then it is the present one.
      by_contra moved
      rw [not_or, not_not] at moved
      obtain ⟨different, j, same⟩ := moved
      have now := keeps j (by rw [former, same])
      have equal : i = j := by
        rw [owned, Option.some.injEq] at now
        exact Fin.ext now
      exact different (by rw [← same, equal])

-- One of two entries with one id is left out, and the hash lies past the last point: it goes back
-- to the first of the entries, which is the one that is kept.
def fourIds : List NodeId := [⟨"b"⟩, ⟨"c"⟩, ⟨"c"⟩, ⟨"a"⟩]

def twoIds : List NodeId := [⟨"c"⟩, ⟨"a"⟩]

def keptPlaces : Fin twoIds.length → Fin fourIds.length :=
  (![1, 3] : Fin 2 → Fin 4)

theorem build_fourIds : build fourIds 1 =
    ⟨[⟨1261481191, 1⟩, ⟨1261481191, 2⟩, ⟨2908762168, 0⟩, ⟨3699991705, 3⟩]⟩ :=
  build_eq _ _ _ (by decide +kernel) (by decide +kernel)

theorem minimal_disruption_shared_id :
    StrictMono keptPlaces ∧ (∀ i, twoIds[i] = fourIds[keptPlaces i]) ∧
      (build fourIds 1).owner 4000000000 = some 1 ∧ (build twoIds 1).owner 4000000000 = some 0 := by
  have increasing : StrictMono keptPlaces := by unfold StrictMono; decide
  have kept : ∀ i, twoIds[i] = fourIds[keptPlaces i] := by decide
  have owned : (build fourIds 1).owner 4000000000 = some 1 := by
    rw [build_fourIds]
    decide
  let first : Fin twoIds.length := ⟨0, by decide⟩
  exact ⟨increasing, kept, owned, (minimal_disruption 1 increasing kept 4000000000).1 first owned⟩

end Kept

end Ring

end RingCache.Cluster
