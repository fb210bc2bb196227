import Mathlib.Data.List.Rotate
import RingCache.Proofs.RingOwners
import RingCache.Proofs.Routing

/-!
Registries over time. Node lists replace each other and flags change, in any order and number, and
the ring is the ring of the present node list all along. So whatever is looked up on it is a place
of that list, and a key is without a primary only where there are no nodes.
-/

namespace RingCache.Cluster

inductive Change where
  | update (nodes : List Node)
  | mark (id : NodeId) (healthy : Bool)

namespace Registry

def change (registry : Registry) : Change → Registry
  | .update nodes => registry.update nodes
  | .mark id healthy => registry.mark id healthy

def replay : List Change → Registry → Registry
  | [], registry => registry
  | first :: rest, registry => replay rest (registry.change first)

theorem replay_append (earlier later : List Change) (registry : Registry) :
    replay (earlier ++ later) registry = replay later (replay earlier registry) := by
  induction earlier generalizing registry with
  | nil => rfl
  | cons change rest ih => exact ih (registry.change change)

structure Current (registry : Registry) : Prop where
  pointed : 0 < registry.virtualNodes
  replicated : 0 < registry.replicationFactor
  ring : registry.ring = .build (registry.nodes.map Node.id) registry.virtualNodes

variable {registry : Registry}

theorem new_current (virtualNodes replicationFactor : Nat) :
    (new virtualNodes replicationFactor).Current where
  pointed := Nat.lt_of_lt_of_le Nat.one_pos (Nat.le_max_right _ 1)
  replicated := Nat.lt_of_lt_of_le Nat.one_pos (Nat.le_max_right _ 1)
  ring := by simp [new, Ring.build, Ring.empty]

theorem change_current (current : registry.Current) (change : Change) :
    (registry.change change).Current := by
  cases change with
  | update nodes => exact ⟨current.pointed, current.replicated, rfl⟩
  | mark id healthy =>
      -- The ring depends on the ids alone, and a mark leaves those.
      have ids := unflagged_ids (registry.mark_unflagged id healthy)
      refine ⟨current.pointed, current.replicated, ?_⟩
      rw [change, ids]
      exact current.ring

theorem replay_current (changes : List Change) (current : registry.Current) :
    (replay changes registry).Current := by
  induction changes generalizing registry with
  | nil => exact current
  | cons first rest ih => exact ih (change_current current first)

/-- No change touches the two numbers. -/
theorem replay_settings (changes : List Change) (registry : Registry) :
    (replay changes registry).virtualNodes = registry.virtualNodes ∧
      (replay changes registry).replicationFactor = registry.replicationFactor := by
  induction changes generalizing registry with
  | nil => exact ⟨rfl, rfl⟩
  | cons first rest ih =>
      obtain ⟨points, factor⟩ := ih (registry.change first)
      cases first <;> exact ⟨points, factor⟩

namespace Current

theorem ownerOf_none_iff (current : registry.Current) (key : String) :
    registry.ring.ownerOf key = none ↔ registry.nodes = [] := by
  rw [current.ring, Ring.ownerOf, Ring.owner_none_iff _ _ current.pointed, List.map_eq_nil_iff]

theorem ownerOf_lt (current : registry.Current) (key : String) (place : Nat)
    (owned : registry.ring.ownerOf key = some place) : place < registry.nodes.length := by
  rw [current.ring] at owned
  have inside := Ring.owner_lt _ _ _ place owned
  rwa [List.length_map] at inside

theorem select_none_iff (current : registry.Current) (key : String) :
    registry.select key = none ↔ registry.nodes = [] := by
  rw [← current.ownerOf_none_iff key, select, Option.bind_eq_none_iff]
  constructor
  · intro nowhere
    cases owned : registry.ring.ownerOf key with
    | none => rfl
    | some place =>
        have outside := nowhere place owned
        rw [List.getElem?_eq_none_iff] at outside
        exact absurd (current.ownerOf_lt key place owned) (Nat.not_lt.mpr outside)
  · intro empty place owned
    rw [empty] at owned
    contradiction

/-- The places of the present nodes, each with a node's points. -/
theorem points_perm (current : registry.Current) : registry.ring.points.Perm
    (registry.nodes.zipIdx.flatMap fun (node, place) =>
      (List.range registry.virtualNodes).map fun index =>
        ⟨hashKey s!"{node.id.name}-{index}", place⟩) := by
  rw [current.ring]
  refine (Ring.points_perm _ _).trans (.of_eq ?_)
  rw [List.zipIdx_map, List.flatMap_map]
  rfl

end Current

theorem rotated_eq_rotate (place : Nat) (inside : place < registry.nodes.length) :
    registry.rotated place = registry.nodes.rotate place :=
  (List.rotate_eq_drop_append_take (Nat.le_of_lt inside)).symm

/-- From a place on, the list is read at places inside it. -/
theorem rotated_reads (place : Nat) (inside : place < registry.nodes.length) :
    (List.range registry.nodes.length).map
        (fun offset => registry.nodes[(place + offset) % registry.nodes.length]?) =
      (registry.rotated place).map some := by
  rw [rotated_eq_rotate place inside]
  apply List.ext_getElem
  · simp
  · intro offset _ bound
    have below : offset < registry.nodes.length := by simpa using bound
    have read := List.getElem?_rotate (n := place) below
    rw [List.getElem_map, List.getElem_map, List.getElem_range, Nat.add_comm, ← read,
      List.getElem?_eq_getElem]

/-- Between the two, nothing has changed but the flags of the entries with an id. -/
structure Reflagged (id : NodeId) (healthy : Bool) (before after : Registry) : Prop where
  ring : after.ring = before.ring
  owners : ∀ key, after.ring.ownerOf key = before.ring.ownerOf key
  virtualNodes : after.virtualNodes = before.virtualNodes
  replicationFactor : after.replicationFactor = before.replicationFactor
  entries : after.nodes.map Node.unflagged = before.nodes.map Node.unflagged
  flags : after.nodes.map Node.healthy =
    before.nodes.map fun node => if node.id = id then healthy else node.healthy

theorem mark_reflagged (registry : Registry) (id : NodeId) (healthy : Bool) :
    Reflagged id healthy registry (registry.mark id healthy) where
  ring := rfl
  owners _ := rfl
  virtualNodes := rfl
  replicationFactor := rfl
  entries := (unflagged_fields (registry.mark_unflagged id healthy)).2.2
  flags := by
    rw [mark, List.map_map]
    apply List.map_congr_left
    intro node _
    by_cases named : node.id = id <;> simp [named]

/-- The node list that some updates install one after the other, beginning with a list. -/
def installed (nodes : List Node) : List Change → List Node
  | [] => nodes
  | .update replacement :: rest => installed replacement rest
  | .mark _ _ :: rest => installed nodes rest

theorem installed_congr {left right : List Node} (changes : List Change)
    (same : left.map Node.unflagged = right.map Node.unflagged) :
    (installed left changes).map Node.unflagged = (installed right changes).map Node.unflagged := by
  induction changes generalizing left right with
  | nil => exact same
  | cons change rest ih =>
      cases change with
      | update replacement => rfl
      | mark id healthy => exact ih same

theorem replay_installed (changes : List Change) (registry : Registry) :
    (replay changes registry).nodes.map Node.unflagged =
      (installed registry.nodes changes).map Node.unflagged := by
  induction changes generalizing registry with
  | nil => rfl
  | cons change rest ih =>
      cases change with
      | update replacement => exact ih (registry.update replacement)
      | mark id healthy =>
          exact (ih (registry.mark id healthy)).trans
            (installed_congr rest (registry.mark_reflagged id healthy).entries)

/-- Ring and node list are in step: the ring has the points of the present nodes and no others, in
their order, and a lookup reads the list inside its bounds. -/
structure Coherent (registry : Registry) : Prop where
  ring : registry.ring = .build (registry.nodes.map Node.id) registry.virtualNodes
  sorted : registry.ring.points.Pairwise fun a b =>
    a.hash < b.hash ∨ a.hash = b.hash ∧ a.node ≤ b.node
  points : registry.ring.points.Perm
    (registry.nodes.zipIdx.flatMap fun (node, place) =>
      (List.range registry.virtualNodes).map fun index =>
        ⟨hashKey s!"{node.id.name}-{index}", place⟩)
  inside : ∀ point ∈ registry.ring.points, point.node < registry.nodes.length
  unrouted : ∀ key, registry.select key = none ↔ registry.nodes = []
  selected : ∀ key node, registry.select key = some node → node ∈ registry.nodes
  /-- The replicas are picked on the way from the owner around the list, and no read misses. -/
  walked : ∀ key place, registry.ring.ownerOf key = some place →
    place < registry.nodes.length ∧
      (List.range registry.nodes.length).map
          (fun offset => registry.nodes[(place + offset) % registry.nodes.length]?) =
        (registry.rotated place).map some ∧
      (registry.replicas key).Sublist (registry.rotated place)
  replicas : ∀ key, ∀ node ∈ registry.replicas key, node ∈ registry.nodes
  marks : ∀ id healthy, Reflagged id healthy registry (registry.mark id healthy)

/-- After any changes the nodes are those of the last update, but for their flags, and the ring is in
step with them. -/
theorem replay_coherent (virtualNodes replicationFactor : Nat) (changes : List Change) :
    let registry := replay changes (new virtualNodes replicationFactor)
    registry.virtualNodes = max virtualNodes 1 ∧
      registry.nodes.map Node.unflagged = (installed [] changes).map Node.unflagged ∧
      registry.Coherent := by
  intro registry
  have current : registry.Current := replay_current changes (new_current _ _)
  refine ⟨(replay_settings changes (new virtualNodes replicationFactor)).1,
    replay_installed changes (new virtualNodes replicationFactor), ?_⟩
  constructor
  case ring => exact current.ring
  case sorted =>
    rw [current.ring]
    exact (Ring.points_sorted _ _).imp fun {a b} ordered => (Point.le_iff a b).mp ordered
  case points => exact current.points_perm
  case inside =>
    intro point member
    rw [current.ring] at member
    have below := Ring.node_lt _ _ point member
    rwa [List.length_map] at below
  case unrouted => exact current.select_none_iff
  case selected => exact fun key node => registry.select_mem key node
  case walked =>
    intro key place owned
    have inside := current.ownerOf_lt key place owned
    refine ⟨inside, rotated_reads place inside, ?_⟩
    rw [Registry.replicas, owned]
    exact (walk_sublist _ _).trans List.filter_sublist
  case replicas => exact fun key node member => (registry.mem_replicas key node member).1
  case marks => exact registry.mark_reflagged

end Registry

end RingCache.Cluster
