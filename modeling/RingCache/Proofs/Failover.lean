import RingCache.Proofs.ListOrders
import RingCache.Proofs.ReplicaSets

/-!
A node that is flagged unhealthy, and flagged healthy again. Where no id is listed twice, the replicas
of a key are the first of its candidates, the healthy entries from the owner on. Flagging a node takes
it out of the candidates and leaves the others in their order, so a replica set loses that node and
gains the next candidate, if there is one; a set without the node stays as it is.
-/

namespace RingCache.Cluster

theorem filter_absent (id : NodeId) (nodes : List Node) (absent : id ∉ nodes.map Node.id) :
    (nodes.filter fun node => node.id ≠ id) = nodes := by
  refine List.filter_eq_self.mpr fun node member => decide_eq_true fun same => absent ?_
  exact same ▸ List.mem_map_of_mem member

theorem firstOfEach_distinct (nodes : List Node) (distinct : (nodes.map Node.id).Nodup) :
    firstOfEach nodes = nodes := by
  induction nodes with
  | nil => rfl
  | cons node rest ih =>
      rw [List.map_cons, List.nodup_cons] at distinct
      rw [firstOfEach, ih distinct.2, filter_absent node.id rest distinct.1]

/-- Without one id, the first entries are those before, and the next one in the place of an entry that
has gone. -/
theorem take_without (id : NodeId) (nodes : List Node) (distinct : (nodes.map Node.id).Nodup)
    (count : Nat) :
    (nodes.filter fun node => node.id ≠ id).take count =
      ((nodes.take count).filter fun node => node.id ≠ id) ++
        if id ∈ (nodes.take count).map Node.id then (nodes.drop count).take 1 else [] := by
  induction nodes generalizing count with
  | nil => simp
  | cons node rest ih =>
      rw [List.map_cons, List.nodup_cons] at distinct
      cases count with
      | zero => simp
      | succ count =>
          by_cases named : node.id = id
          · -- The id has gone with this entry, and the rest moves up by one.
            have absent : id ∉ rest.map Node.id := named ▸ distinct.1
            have absentBefore : id ∉ (rest.take count).map Node.id :=
              fun member => absent (((List.take_sublist count rest).map _).mem member)
            rw [List.filter_cons_of_neg (by simpa using named), filter_absent id rest absent,
              List.take_succ_cons, List.filter_cons_of_neg (by simpa using named),
              filter_absent id _ absentBefore, List.map_cons, if_pos (by simp [named]),
              List.drop_succ_cons, List.take_add]
          · rw [List.filter_cons_of_pos (by simpa using named), List.take_succ_cons, ih distinct.2,
              List.take_succ_cons, List.filter_cons_of_pos (by simpa using named), List.map_cons,
              List.drop_succ_cons, List.cons_append]
            simp only [List.mem_cons, Ne.symm named, false_or]

namespace Registry

variable {registry : Registry}

theorem mark_mark (registry : Registry) (id : NodeId) (first second : Bool) :
    (registry.mark id first).mark id second = registry.mark id second := by
  simp only [mark, List.map_map, Registry.mk.injEq, true_and, and_true]
  apply List.map_congr_left
  intro node _
  by_cases named : node.id = id <;> simp [named]

theorem mark_self (id : NodeId) (healthy : Bool)
    (flags : ∀ node ∈ registry.nodes, node.id = id → node.healthy = healthy) :
    registry.mark id healthy = registry := by
  have same : registry.nodes.map
      (fun node => if node.id = id then { node with healthy } else node) = registry.nodes := by
    refine (List.map_congr_left fun node member => ?_).trans (List.map_id registry.nodes)
    split
    · next named => rw [← flags node member named, id_eq]
    · rfl
  rw [mark, same]

theorem mark_restored (distinct : (registry.nodes.map Node.id).Nodup) {node : Node}
    (member : node ∈ registry.nodes) (healthy : node.healthy = true) :
    (registry.mark node.id false).mark node.id true = registry := by
  rw [mark_mark]
  refine mark_self node.id true fun other otherMember same => ?_
  rw [eq_of_id distinct member otherMember same, healthy]

theorem mark_ids (registry : Registry) (id : NodeId) (healthy : Bool) :
    (registry.mark id healthy).nodes.map Node.id = registry.nodes.map Node.id :=
  unflagged_ids (registry.mark_unflagged id healthy)

theorem Current.mark (current : registry.Current) (id : NodeId) (healthy : Bool) :
    (registry.mark id healthy).Current :=
  change_current current (.mark id healthy)

theorem Current.mark_select_id (current : registry.Current) (id : NodeId) (healthy : Bool)
    (key : String) :
    ((registry.mark id healthy).select key).map Node.id = (registry.select key).map Node.id := by
  rw [(current.mark id healthy).select_id, current.select_id, mark_ids]
  rfl

/-- The healthy entries from the owner of a key on and around. -/
def candidates (registry : Registry) (key : String) : List Node :=
  (registry.nodes.rotate ((registry.ring.ownerOf key).getD 0)).filter Node.healthy

theorem candidates_perm (registry : Registry) (key : String) :
    (registry.candidates key).Perm registry.healthyNodes :=
  (List.rotate_perm _ _).filter _

theorem candidates_distinct (distinct : (registry.nodes.map Node.id).Nodup) (key : String) :
    ((registry.candidates key).map Node.id).Nodup :=
  (((registry.candidates_perm key).map Node.id).nodup_iff).mpr
    (distinct.sublist (List.filter_sublist.map _))

theorem Current.replicas_take (current : registry.Current)
    (distinct : (registry.nodes.map Node.id).Nodup) (key : String) :
    registry.replicas key = (registry.candidates key).take registry.replicationFactor := by
  rw [current.replicas_eq key]
  exact congrArg _ (firstOfEach_distinct _ (candidates_distinct distinct key))

theorem filter_healthy_mark (nodes : List Node) (id : NodeId) :
    (nodes.map fun node => if node.id = id then { node with healthy := false } else node).filter
        Node.healthy =
      (nodes.filter Node.healthy).filter fun node => node.id ≠ id := by
  induction nodes with
  | nil => rfl
  | cons node rest ih =>
      by_cases named : node.id = id
      · cases healthy : node.healthy <;> simp_all
      · cases healthy : node.healthy <;> simp_all

/-- A flag takes one id out of the candidates. -/
theorem candidates_mark (registry : Registry) (id : NodeId) (key : String) :
    (registry.mark id false).candidates key =
      (registry.candidates key).filter fun node => node.id ≠ id := by
  rw [candidates, candidates, mark, ← List.map_rotate, filter_healthy_mark]

/-- What a replica set gains when an id leaves the candidates. -/
def joining (registry : Registry) (key : String) (id : NodeId) : List Node :=
  if id ∈ (registry.replicas key).map Node.id then
    ((registry.candidates key).drop registry.replicationFactor).take 1
  else []

theorem Current.replicas_mark (current : registry.Current)
    (distinct : (registry.nodes.map Node.id).Nodup) (key : String) (id : NodeId) :
    (registry.mark id false).replicas key =
      ((registry.replicas key).filter fun node => node.id ≠ id) ++ registry.joining key id := by
  have still : ((registry.mark id false).nodes.map Node.id).Nodup := by
    rwa [mark_ids]
  rw [(current.mark id false).replicas_take still, candidates_mark, joining, current.replicas_take distinct]
  exact take_without id _ (candidates_distinct distinct key) registry.replicationFactor

theorem joining_length (registry : Registry) (key : String) (id : NodeId) :
    (registry.joining key id).length =
      if id ∈ (registry.replicas key).map Node.id ∧
        registry.replicationFactor < registry.healthyNodes.length then 1 else 0 := by
  have count := (registry.candidates_perm key).length_eq
  rw [joining]
  by_cases member : id ∈ (registry.replicas key).map Node.id
  · simp only [member, if_true, true_and, List.length_take, List.length_drop, count]
    split <;> omega
  · simp only [member, if_false, false_and, List.length_nil]

theorem Current.joining_new (current : registry.Current)
    (distinct : (registry.nodes.map Node.id).Nodup) (key : String) (id : NodeId) (node : Node)
    (joins : node ∈ registry.joining key id) : node ∉ registry.replicas key := by
  rw [joining] at joins
  split at joins
  · rw [current.replicas_take distinct]
    intro already
    have once := (candidates_distinct distinct key).of_map
    exact List.disjoint_take_drop once (Nat.le_refl _) already (List.mem_of_mem_take joins)
  · exact absurd joins List.not_mem_nil

/-- The loss of one node in any state without repeated ids. A key's replica set keeps its other members in
their order, and one more healthy node joins behind them if the set had the node and there are healthy
nodes outside it. The primary is the same, and with the node back so is every replica set. -/
theorem failover_minimal (virtualNodes replicationFactor : Nat) (changes : List Change)
    (key : String) (node : Node) :
    let registry := replay changes (new virtualNodes replicationFactor)
    let down := registry.mark node.id false
    (registry.nodes.map Node.id).Nodup → node ∈ registry.nodes → node.healthy = true →
      (∃ joining : List Node,
        down.replicas key =
          ((registry.replicas key).filter fun other => other.id ≠ node.id) ++ joining ∧
        joining.length = (if node ∈ registry.replicas key ∧
          registry.replicationFactor < registry.healthyNodes.length then 1 else 0) ∧
        ∀ other ∈ joining, other ∈ down.healthyNodes ∧ other ∉ registry.replicas key) ∧
      (node ∉ registry.replicas key → down.replicas key = registry.replicas key) ∧
      (down.select key).map Node.id = (registry.select key).map Node.id ∧
      ∀ other, (down.mark node.id true).replicas other = registry.replicas other := by
  intro registry down distinct member healthy
  have current : registry.Current := replay_current changes (new_current _ _)
  have replaced : down.replicas key =
      ((registry.replicas key).filter fun other => other.id ≠ node.id) ++
        registry.joining key node.id := current.replicas_mark distinct key node.id
  have included : node.id ∈ (registry.replicas key).map Node.id ↔ node ∈ registry.replicas key := by
    refine ⟨fun named => ?_, List.mem_map_of_mem⟩
    obtain ⟨other, inSet, same⟩ := List.mem_map.mp named
    exact eq_of_id distinct member (registry.mem_replicas key other inSet).1 same ▸ inSet
  refine ⟨⟨registry.joining key node.id, replaced, ?_, ?_⟩, ?_, ?_, ?_⟩
  · simp only [joining_length, included]
  · intro other joins
    have inSet : other ∈ down.replicas key := by
      rw [replaced]
      exact List.mem_append_right _ joins
    exact ⟨(down.mem_healthyNodes other).mpr (down.mem_replicas key other inSet),
      current.joining_new distinct key node.id other joins⟩
  · intro outside
    have absent := mt included.mp outside
    rw [replaced, joining, if_neg absent, List.append_nil, filter_absent node.id _ absent]
  · exact current.mark_select_id node.id false key
  · intro other
    rw [mark_restored distinct member healthy]

-- The primary is lost, and the walk comes round to the first entry of the list.
theorem failover_minimal_primary :
    let registry := replay [.update [peerB, peerC, peerA]] (new 1 2)
    let down := registry.mark peerC.id false
    (registry.nodes.map Node.id).Nodup ∧ peerC ∈ registry.nodes ∧ peerC.healthy = true ∧
      registry.replicas "k" = [peerC, peerA] ∧ down.replicas "k" = [peerA, peerB] ∧
      (down.select "k").map Node.id = some peerC.id ∧
      (down.mark peerC.id true).replicas "k" = [peerC, peerA] := by
  intro registry down
  have distinct : (registry.nodes.map Node.id).Nodup := by decide
  have member : peerC ∈ registry.nodes := by decide
  have owned : registry.ring.ownerOf "k" = some 1 := by
    have ring : registry.ring = Ring.build [⟨"b"⟩, ⟨"c"⟩, ⟨"a"⟩] 1 := rfl
    rw [ring, build_peers]
    decide +kernel
  have before : registry.replicas "k" = [peerC, peerA] := by
    rw [replicas, owned]
    decide
  have selected : registry.select "k" = some peerC := by
    rw [select, owned]
    rfl
  obtain ⟨⟨joining, replaced, one, new⟩, _, primary, restored⟩ :=
    failover_minimal 1 2 [.update [peerB, peerC, peerA]] "k" peerC distinct member rfl
  refine ⟨distinct, member, rfl, before, ?_, ?_, (restored "k").trans before⟩
  · have single : joining.length = 1 := by
      rw [one, if_pos]
      exact ⟨by rw [before]; decide, by decide⟩
    obtain ⟨joined, rfl⟩ := List.length_eq_one_iff.mp single
    obtain ⟨healthy, outside⟩ := new joined List.mem_cons_self
    have remaining : joined ∈ [peerB, peerA] := healthy
    rw [before] at outside replaced
    have last : joined = peerB := by
      rcases List.mem_cons.mp remaining with same | other
      · exact same
      · exact absurd (List.mem_cons_of_mem peerC other) outside
    rw [last] at replaced
    exact replaced
  · exact primary.trans (congrArg (Option.map Node.id) selected)

end Registry

end RingCache.Cluster
