import RingCache.Proofs.NearestPoints
import RingCache.Proofs.RegistryChanges

/-!
Node lists in different orders. Only points of one hash are told apart by their places in the list, so
as long as different ids share no hash, which id has the nearest point is a matter of the ids alone.
Registries that list the same nodes in different orders then give a key the same primary, whatever
changes led to them.
-/

namespace RingCache.Cluster

namespace Ring

/-- No two points of different ids share a hash. -/
def Apart (ids : List NodeId) (virtualNodes : Nat) : Prop :=
  ∀ id ∈ ids, ∀ other ∈ ids, id ≠ other → ∀ index < virtualNodes, ∀ otherIndex < virtualNodes,
    hashKey (pointLabel id index) ≠ hashKey (pointLabel other otherIndex)

instance (ids : List NodeId) (virtualNodes : Nat) : Decidable (Apart ids virtualNodes) := by
  unfold Apart
  infer_instance

/-- An id of the list with a point that no point of any id is nearer than. -/
def Leads (ids : List NodeId) (virtualNodes : Nat) (hash : UInt32) (id : NodeId) : Prop :=
  id ∈ ids ∧ ∃ index < virtualNodes, ∀ other ∈ ids, ∀ otherIndex < virtualNodes,
    clockwise hash (hashKey (pointLabel id index)) ≤
      clockwise hash (hashKey (pointLabel other otherIndex))

def ownerId (ids : List NodeId) (virtualNodes : Nat) (hash : UInt32) : Option NodeId :=
  ((build ids virtualNodes).owner hash).bind fun place => ids[place]?

variable {ids others : List NodeId} {virtualNodes : Nat}

theorem Leads.congr (same : ∀ id, id ∈ ids ↔ id ∈ others) (hash : UInt32) (id : NodeId) :
    Leads ids virtualNodes hash id ↔ Leads others virtualNodes hash id := by
  simp only [Leads, same]

theorem Apart.congr (same : ∀ id, id ∈ ids ↔ id ∈ others) :
    Apart ids virtualNodes ↔ Apart others virtualNodes := by
  simp only [Apart, same]

theorem Slot.clockwise_le {hash : UInt32} (slot other : Slot ids virtualNodes)
    (least : slot.rank hash ≤ other.rank hash) :
    clockwise hash (hashKey slot.label) ≤ clockwise hash (hashKey other.label) := by
  rcases Prod.Lex.toLex_le_toLex.mp least with nearer | ⟨level, _⟩
  · exact Int.le_of_lt nearer
  · exact Int.le_of_eq level

theorem ownerId_iff (apart : Apart ids virtualNodes) (hash : UInt32) (id : NodeId) :
    ownerId ids virtualNodes hash = some id ↔ Leads ids virtualNodes hash id := by
  rw [ownerId, Option.bind_eq_some_iff]
  constructor
  · rintro ⟨node, owned, found⟩
    obtain ⟨nearest, rfl, least⟩ := (owner_eq_some_iff hash node).mp owned
    obtain ⟨inside, rfl⟩ := List.getElem?_eq_some_iff.mp found
    refine ⟨List.getElem_mem inside, nearest.2, nearest.2.isLt, ?_⟩
    intro other member otherIndex below
    obtain ⟨place, bound, rfl⟩ := List.getElem_of_mem member
    let slot : Slot ids virtualNodes := (⟨place, bound⟩, ⟨otherIndex, below⟩)
    exact nearest.clockwise_le slot (least slot)
  · rintro ⟨member, index, below, leads⟩
    obtain ⟨place, bound, rfl⟩ := List.getElem_of_mem member
    let slot : Slot ids virtualNodes := (⟨place, bound⟩, ⟨index, below⟩)
    cases owned : (build ids virtualNodes).owner hash with
    | none =>
        rcases (owner_eq_none_iff hash).mp owned with rfl | rfl
        · exact absurd member List.not_mem_nil
        · exact absurd below (Nat.not_lt_zero index)
    | some node =>
        obtain ⟨nearest, rfl, least⟩ := (owner_eq_some_iff hash node).mp owned
        refine ⟨nearest.1, rfl, (List.getElem?_eq_getElem nearest.1.isLt).trans ?_⟩
        -- Two points at one distance have one hash, and then they are points of one id.
        have level := Int.le_antisymm (nearest.clockwise_le slot (least slot))
          (leads _ (List.getElem_mem nearest.1.isLt) nearest.2 nearest.2.isLt)
        have shared := clockwise_injective hash level
        by_contra different
        exact apart _ (List.getElem_mem nearest.1.isLt) _ member
          (fun same => different (congrArg some same)) _ nearest.2.isLt _ below shared

/-- The id behind the owner is known by the ids that there are. -/
theorem ownerId_congr (same : ∀ id, id ∈ ids ↔ id ∈ others) (apart : Apart ids virtualNodes)
    (hash : UInt32) : ownerId ids virtualNodes hash = ownerId others virtualNodes hash := by
  apply Option.ext
  intro id
  rw [ownerId_iff apart, ownerId_iff ((Apart.congr same).mp apart), Leads.congr same]

end Ring

namespace Registry

variable {registry other : Registry}

theorem Current.select_id (current : registry.Current) (key : String) :
    (registry.select key).map Node.id =
      Ring.ownerId (registry.nodes.map Node.id) registry.virtualNodes (hashKey key) := by
  rw [select, current.ring, Ring.ownerOf, Ring.ownerId, Option.map_bind]
  congr 1
  funext place
  exact List.getElem?_map.symm

/-- Where no id is listed twice, an entry is known by its id. -/
theorem eq_of_id (distinct : (registry.nodes.map Node.id).Nodup) {node twin : Node}
    (member : node ∈ registry.nodes) (twinMember : twin ∈ registry.nodes)
    (same : twin.id = node.id) : twin = node :=
  List.inj_on_of_nodup_map distinct twinMember member same

/-- Entries of one id in two lists of the same entries are one entry, where no id is listed
twice. -/
theorem unflagged_eq_of_id {node twin : Node} (member : node ∈ registry.nodes)
    (twinMember : twin ∈ other.nodes) (sameId : node.id = twin.id)
    (distinct : (registry.nodes.map Node.id).Nodup)
    (entries : (registry.nodes.map Node.unflagged).Perm (other.nodes.map Node.unflagged)) :
    node.unflagged = twin.unflagged := by
  obtain ⟨listed, found, forgets⟩ :=
    List.mem_map.mp (entries.mem_iff.mpr (List.mem_map_of_mem twinMember))
  have named : listed.unflagged.id = twin.unflagged.id := congrArg Node.id forgets
  rw [eq_of_id distinct found member (sameId.trans named.symm), forgets]

/-- Two registries with as many points for each node, after any changes, list the same ids in any two
orders, and no points of different ids share a hash: a key has primaries of one id. Where no id is
listed twice and the entries are the same, it is the same entry, but for the flag. -/
theorem primary_ignores_order (virtualNodes replicationFactor otherFactor : Nat)
    (changes otherChanges : List Change) (key : String) :
    let registry := replay changes (new virtualNodes replicationFactor)
    let other := replay otherChanges (new virtualNodes otherFactor)
    (registry.nodes.map Node.id).Perm (other.nodes.map Node.id) →
    Ring.Apart (registry.nodes.map Node.id) registry.virtualNodes →
      (registry.select key = none ↔ registry.nodes = []) ∧
      (registry.select key).map Node.id = (other.select key).map Node.id ∧
      ((registry.nodes.map Node.id).Nodup →
        (registry.nodes.map Node.unflagged).Perm (other.nodes.map Node.unflagged) →
          (registry.select key).map Node.unflagged = (other.select key).map Node.unflagged) := by
  intro registry other permuted apart
  have current : registry.Current := replay_current changes (new_current _ _)
  have otherCurrent : other.Current := replay_current otherChanges (new_current _ _)
  have points : registry.virtualNodes = other.virtualNodes :=
    (replay_settings changes (new virtualNodes replicationFactor)).1.trans
      (replay_settings otherChanges (new virtualNodes otherFactor)).1.symm
  have sameId : (registry.select key).map Node.id = (other.select key).map Node.id := by
    rw [current.select_id, otherCurrent.select_id, ← points]
    exact Ring.ownerId_congr (fun _ => permuted.mem_iff) apart _
  refine ⟨current.select_none_iff key, sameId, ?_⟩
  intro distinct entries
  cases selected : registry.select key with
  | none =>
      rw [selected, Option.map_none, eq_comm, Option.map_eq_none_iff] at sameId
      rw [sameId]
  | some primary =>
      rw [selected, Option.map_some, eq_comm, Option.map_eq_some_iff] at sameId
      obtain ⟨twin, twinSelected, named⟩ := sameId
      rw [twinSelected, Option.map_some, Option.map_some,
        unflagged_eq_of_id (registry.select_mem key primary selected)
          (other.select_mem key twin twinSelected) named.symm distinct entries]

-- A key that lies past the last point, in two orders of three nodes.
def peerB : Node := .fresh ⟨"b"⟩ "test://b" "b"

def peerC : Node := .fresh ⟨"c"⟩ "test://c" "c"

def peerA : Node := .fresh ⟨"a"⟩ "test://a" "a"

theorem build_peers : Ring.build [⟨"b"⟩, ⟨"c"⟩, ⟨"a"⟩] 1 =
    ⟨[⟨1261481191, 1⟩, ⟨2908762168, 0⟩, ⟨3699991705, 2⟩]⟩ :=
  Ring.build_eq _ _ _ (by decide +kernel) (by decide +kernel)

theorem primary_ignores_order_peers :
    let registry := replay [.update [peerB, peerC, peerA]] (new 1 2)
    let other := replay [.update [peerA, peerB, peerC], .mark ⟨"c"⟩ false] (new 1 1)
    (registry.nodes.map Node.id).Perm (other.nodes.map Node.id) ∧
      Ring.Apart (registry.nodes.map Node.id) registry.virtualNodes ∧
      (registry.nodes.map Node.id).Nodup ∧
      (registry.nodes.map Node.unflagged).Perm (other.nodes.map Node.unflagged) ∧
      registry.select "k" = some peerC ∧ (other.select "k").map Node.id = some ⟨"c"⟩ ∧
      (other.select "k").map Node.unflagged = some peerC := by
  intro registry other
  have permuted : (registry.nodes.map Node.id).Perm (other.nodes.map Node.id) := by decide
  have apart : Ring.Apart (registry.nodes.map Node.id) registry.virtualNodes := by decide +kernel
  have distinct : (registry.nodes.map Node.id).Nodup := by decide
  have entries : (registry.nodes.map Node.unflagged).Perm (other.nodes.map Node.unflagged) := by
    decide
  have owned : registry.ring.ownerOf "k" = some 1 := by
    have ring : registry.ring = Ring.build [⟨"b"⟩, ⟨"c"⟩, ⟨"a"⟩] 1 := rfl
    rw [ring, build_peers]
    decide +kernel
  have selected : registry.select "k" = some peerC := by
    rw [select, owned]
    rfl
  obtain ⟨_, sameId, sameEntry⟩ := primary_ignores_order 1 2 1 [.update [peerB, peerC, peerA]]
    [.update [peerA, peerB, peerC], .mark ⟨"c"⟩ false] "k" permuted apart
  refine ⟨permuted, apart, distinct, entries, selected, ?_, ?_⟩
  · exact sameId.symm.trans (congrArg (Option.map Node.id) selected)
  · exact (sameEntry distinct entries).symm.trans (congrArg (Option.map Node.unflagged) selected)

end Registry

end RingCache.Cluster
