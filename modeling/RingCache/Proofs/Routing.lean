import Mathlib.Data.List.Nodup
import RingCache.Cluster.Registry

/-!
Routing. A replica set takes the healthy entries from the key's primary on, the first of each id, so
it begins with the primary whenever that is flagged healthy. Marking changes flags only, so
`unflagged`, which forgets them, is what stays of a registry as long as no node list replaces
another.
-/

namespace RingCache.Cluster

def Node.unflagged (node : Node) : Node := { node with healthy := true }

def firstOfEach : List Node → List Node
  | [] => []
  | node :: rest => node :: (firstOfEach rest).filter fun other => other.id ≠ node.id

theorem firstOfEach_sublist (nodes : List Node) : (firstOfEach nodes).Sublist nodes := by
  induction nodes with
  | nil => exact List.Sublist.refl []
  | cons node rest ih => exact (List.filter_sublist.trans ih).cons_cons node

theorem firstOfEach_ids_nodup (nodes : List Node) : ((firstOfEach nodes).map Node.id).Nodup := by
  induction nodes with
  | nil => exact List.nodup_nil
  | cons node rest ih =>
      rw [firstOfEach, List.map_cons, List.nodup_cons]
      constructor
      · intro again
        obtain ⟨other, member, same⟩ := List.mem_map.mp again
        simp [same] at member
      · exact ih.sublist (List.filter_sublist.map _)

namespace Registry

variable (registry : Registry)

def unflagged : Registry := { registry with nodes := registry.nodes.map Node.unflagged }

theorem mark_unflagged (id : NodeId) (healthy : Bool) :
    (registry.mark id healthy).unflagged = registry.unflagged := by
  simp only [unflagged, mark, List.map_map, Registry.mk.injEq, true_and, and_true]
  apply List.map_congr_left
  intro node _
  by_cases named : node.id = id <;> simp [Node.unflagged, named]

theorem select_unflagged (key : String) :
    registry.unflagged.select key = (registry.select key).map Node.unflagged := by
  simp only [select, unflagged]
  cases registry.ring.ownerOf key <;> simp

theorem unflagged_fields {before after : Registry} (same : after.unflagged = before.unflagged) :
    after.replicationFactor = before.replicationFactor ∧ after.ring = before.ring ∧
      after.nodes.map Node.unflagged = before.nodes.map Node.unflagged := by
  simp only [unflagged, Registry.mk.injEq] at same
  exact ⟨same.2.1, same.2.2.2, same.2.2.1⟩

theorem unflagged_ids {before after : Registry} (same : after.unflagged = before.unflagged) :
    after.nodes.map Node.id = before.nodes.map Node.id := by
  have ids := congrArg (List.map Node.id) (unflagged_fields same).2.2
  simpa [Function.comp_def, Node.unflagged] using ids

theorem unflagged_stores {before after : Registry} (same : after.unflagged = before.unflagged) :
    after.nodes.map Node.store = before.nodes.map Node.store := by
  have stores := congrArg (List.map Node.store) (unflagged_fields same).2.2
  simpa [Function.comp_def, Node.unflagged] using stores

/-- The primary of a key is one node for good; only its flag may differ. -/
theorem unflagged_select {before after : Registry} (same : after.unflagged = before.unflagged)
    (key : String) (primary : Node) (selected : before.select key = some primary) :
    ∃ current, after.select key = some current ∧ current.id = primary.id ∧
      current.store = primary.store := by
  have kept : (after.select key).map Node.unflagged = some primary.unflagged := by
    rw [← select_unflagged, same, select_unflagged, selected, Option.map_some]
  obtain ⟨current, found, forgets⟩ := Option.map_eq_some_iff.mp kept
  have sameId : current.unflagged.id = primary.unflagged.id := congrArg Node.id forgets
  have sameStore : current.unflagged.store = primary.unflagged.store := congrArg Node.store forgets
  exact ⟨current, found, sameId, sameStore⟩

theorem select_mem (key : String) (primary : Node)
    (selected : registry.select key = some primary) : primary ∈ registry.nodes := by
  obtain ⟨place, _, found⟩ := Option.bind_eq_some_iff.mp selected
  exact List.mem_of_getElem? found

-- The walk of a replica set without its list of seen ids and its count of places left.
theorem walk_eq (seen : List NodeId) (left : Nat) (nodes : List Node) :
    walk seen left nodes =
      ((firstOfEach (nodes.filter Node.healthy)).filter fun node => node.id ∉ seen).take left := by
  fun_induction walk seen left nodes with
  | case1 => rw [List.take_zero]
  | case2 => rfl
  | case3 seen left node rest taken ih =>
      simp only [Bool.and_eq_true, Bool.not_eq_true', List.contains_eq_mem,
        decide_eq_false_iff_not] at taken
      obtain ⟨healthy, unseen⟩ := taken
      have later : ∀ other : Node, decide (other.id ∉ node.id :: seen) =
          (decide (other.id ∉ seen) && decide (other.id ≠ node.id)) := by
        intro other
        by_cases same : other.id = node.id <;> simp [same]
      rw [ih, List.filter_cons_of_pos healthy, firstOfEach,
        List.filter_cons_of_pos (by simpa using unseen), List.take_succ_cons, List.filter_filter]
      simp only [later]
  | case4 seen left node rest passed ih =>
      rw [ih]
      by_cases healthy : node.healthy = true
      · -- The entry's id has been seen, so no entry of that id is taken any more.
        have seenId : node.id ∈ seen := by simpa [healthy] using passed
        have dropped : ∀ other : Node, (decide (other.id ∉ seen) && decide (other.id ≠ node.id)) =
            decide (other.id ∉ seen) := by
          intro other
          by_cases same : other.id = node.id <;> simp [same, seenId]
        rw [List.filter_cons_of_pos healthy, firstOfEach,
          List.filter_cons_of_neg (by simpa using seenId), List.filter_filter]
        simp only [dropped]
      · rw [List.filter_cons_of_neg healthy]

variable (left : Nat) (nodes : List Node)

theorem walk_nothing_seen :
    walk [] left nodes = (firstOfEach (nodes.filter Node.healthy)).take left := by
  rw [walk_eq]
  simp

theorem walk_sublist : (walk [] left nodes).Sublist (nodes.filter Node.healthy) := by
  rw [walk_nothing_seen]
  exact (List.take_sublist ..).trans (firstOfEach_sublist _)

theorem walk_ids_nodup : ((walk [] left nodes).map Node.id).Nodup := by
  rw [walk_nothing_seen]
  exact (firstOfEach_ids_nodup _).sublist ((List.take_sublist ..).map _)

theorem walk_healthy_head (first : Node) (positive : 0 < left) (healthy : first.healthy = true) :
    ∃ others, walk [] left (first :: nodes) = first :: others := by
  cases left with
  | zero => contradiction
  | succ left =>
      rw [walk_nothing_seen, List.filter_cons_of_pos healthy, firstOfEach, List.take_succ_cons]
      exact ⟨_, rfl⟩

theorem mem_rotated (place : Nat) (node : Node) :
    node ∈ registry.rotated place ↔ node ∈ registry.nodes := by
  rw [rotated, List.mem_append, or_comm, ← List.mem_append, List.take_append_drop]

theorem mem_replicas (key : String) (node : Node) (member : node ∈ registry.replicas key) :
    node ∈ registry.nodes ∧ node.healthy = true := by
  unfold replicas at member
  cases owned : registry.ring.ownerOf key with
  | none => simp [owned] at member
  | some place =>
      simp only [owned] at member
      obtain ⟨inside, healthy⟩ := List.mem_filter.mp ((walk_sublist _ _).mem member)
      exact ⟨(registry.mem_rotated place node).mp inside, healthy⟩

theorem replicas_ids_nodup (key : String) : ((registry.replicas key).map Node.id).Nodup := by
  unfold replicas
  cases registry.ring.ownerOf key with
  | none => simp
  | some place => exact walk_ids_nodup _ _

/-- Replicas are entries at different places, so entries with separate stores have separate ones as
replicas. -/
theorem replicas_stores_nodup (key : String) (stores : (registry.nodes.map Node.store).Nodup) :
    ((registry.replicas key).map Node.store).Nodup := by
  unfold replicas
  cases registry.ring.ownerOf key with
  | none => simp
  | some place =>
      have turned : (registry.rotated place).Perm registry.nodes :=
        List.perm_append_comm.trans (.of_eq (List.take_append_drop place registry.nodes))
      exact ((turned.map Node.store).nodup_iff.mpr stores).sublist
        (((walk_sublist _ _).trans List.filter_sublist).map _)

/-- A healthy primary is the first replica. -/
theorem replicas_healthy_primary (key : String) (primary : Node)
    (selected : registry.select key = some primary) (healthy : primary.healthy = true)
    (positive : 0 < registry.replicationFactor) :
    ∃ others, registry.replicas key = primary :: others := by
  obtain ⟨place, owned, found⟩ := Option.bind_eq_some_iff.mp selected
  obtain ⟨bound, atPlace⟩ := List.getElem?_eq_some_iff.mp found
  have turned : registry.rotated place =
      primary :: (registry.nodes.drop (place + 1) ++ registry.nodes.take place) := by
    rw [rotated, List.drop_eq_getElem_cons bound, atPlace, List.cons_append]
  simp only [replicas, owned, turned]
  exact walk_healthy_head _ _ primary positive healthy

theorem mem_healthyNodes (node : Node) :
    node ∈ registry.healthyNodes ↔ node ∈ registry.nodes ∧ node.healthy = true :=
  List.mem_filter

end Registry

end RingCache.Cluster
