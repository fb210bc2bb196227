import Mathlib.Data.Finset.Card
import RingCache.Proofs.RegistryChanges

/-!
Replica sets in any state of a registry: the healthy entries in order from the owner on, of those the
first of each id, and of those as many as the factor allows. How many there are depends on the ids
with a healthy entry only, and not on the key.
-/

namespace RingCache.Cluster

theorem mem_firstOfEach_ids (nodes : List Node) (id : NodeId) :
    id ∈ (firstOfEach nodes).map Node.id ↔ id ∈ nodes.map Node.id := by
  induction nodes with
  | nil => rfl
  | cons node rest ih =>
      simp only [firstOfEach, List.map_cons, List.mem_cons, ← ih]
      by_cases same : id = node.id
      · simp [same]
      · simp only [same, false_or, List.mem_map, List.mem_filter, decide_eq_true_eq]
        constructor
        · rintro ⟨other, ⟨member, _⟩, named⟩
          exact ⟨other, member, named⟩
        · rintro ⟨other, member, named⟩
          exact ⟨other, ⟨member, named ▸ same⟩, named⟩

theorem firstOfEach_length (nodes : List Node) :
    (firstOfEach nodes).length = (nodes.map Node.id).toFinset.card := by
  have ids : ((firstOfEach nodes).map Node.id).toFinset = (nodes.map Node.id).toFinset := by
    ext id
    rw [List.mem_toFinset, List.mem_toFinset, mem_firstOfEach_ids]
  rw [← ids, List.toFinset_card_of_nodup (firstOfEach_ids_nodup nodes), List.length_map]

namespace Registry

variable {registry : Registry}

theorem Current.replicas_eq (current : registry.Current) (key : String) :
    registry.replicas key =
      (firstOfEach ((registry.nodes.rotate ((registry.ring.ownerOf key).getD 0)).filter
        Node.healthy)).take registry.replicationFactor := by
  unfold replicas
  cases owned : registry.ring.ownerOf key with
  | none =>
      rw [(current.ownerOf_none_iff key).mp owned]
      simp [firstOfEach]
  | some place =>
      have inside := current.ownerOf_lt key place owned
      simp only [Option.getD_some, walk_nothing_seen, rotated_eq_rotate place inside]

theorem Current.replicas_length (current : registry.Current) (key : String) :
    (registry.replicas key).length =
      min registry.replicationFactor (registry.healthyNodes.map Node.id).toFinset.card := by
  have turned : ((registry.nodes.rotate ((registry.ring.ownerOf key).getD 0)).filter
      Node.healthy).Perm registry.healthyNodes :=
    (List.rotate_perm _ _).filter _
  rw [current.replicas_eq key, List.length_take, firstOfEach_length,
    List.toFinset_eq_of_perm _ _ (turned.map Node.id)]

/-- The replicas of a key in any state of a registry. A key without an owner has no node list to go
along either. -/
theorem replicas_exact (virtualNodes replicationFactor : Nat) (changes : List Change)
    (key : String) :
    let registry := replay changes (new virtualNodes replicationFactor)
    let fromOwner := registry.nodes.rotate ((registry.ring.ownerOf key).getD 0)
    registry.replicationFactor = max replicationFactor 1 ∧
      registry.replicas key =
        (firstOfEach (fromOwner.filter Node.healthy)).take registry.replicationFactor ∧
      ((registry.replicas key).map Node.id).Nodup ∧
      (∀ node ∈ registry.replicas key, node.healthy = true) ∧
      (registry.replicas key).length =
        min registry.replicationFactor (registry.healthyNodes.map Node.id).toFinset.card ∧
      ∀ primary, registry.select key = some primary → primary.healthy = true →
        (registry.replicas key).head? = some primary := by
  intro registry fromOwner
  have current : registry.Current := replay_current changes (new_current _ _)
  refine ⟨(replay_settings changes (new virtualNodes replicationFactor)).2,
    current.replicas_eq key, registry.replicas_ids_nodup key, ?_, current.replicas_length key, ?_⟩
  · exact fun node member => (registry.mem_replicas key node member).2
  · intro primary selected healthy
    obtain ⟨others, shape⟩ := registry.replicas_healthy_primary key primary selected healthy
      current.replicated
    rw [shape, List.head?_cons]

-- The key lies past the last point, so the walk begins at the second entry and goes round the end
-- of the list. It meets the owner's id again, then an entry flagged unhealthy, and ends short of
-- the factor.
def fourNodes : List Node :=
  [.fresh ⟨"b"⟩ "test://b" "b", .fresh ⟨"c"⟩ "test://c" "c", .fresh ⟨"c"⟩ "test://d" "d",
    .fresh ⟨"a"⟩ "test://a" "a"]

theorem replicas_exact_round :
    let registry := replay [.update fourNodes, .mark ⟨"a"⟩ false] (new 1 5)
    registry.ring.ownerOf "k" = some 1 ∧ registry.select "k" = fourNodes[1]? ∧
      registry.replicas "k" =
        [.fresh ⟨"c"⟩ "test://c" "c", .fresh ⟨"b"⟩ "test://b" "b"] ∧
      (registry.replicas "k").head? = registry.select "k" := by
  intro registry
  have ring : registry.ring = Ring.build Ring.fourIds 1 := rfl
  have owned : registry.ring.ownerOf "k" = some 1 := by
    rw [ring, Ring.build_fourIds]
    decide +kernel
  have selected : registry.select "k" = fourNodes[1]? := by
    rw [select, owned]
    rfl
  obtain ⟨_, exact, _, _, _, first⟩ :=
    replicas_exact 1 5 [.update fourNodes, .mark ⟨"a"⟩ false] "k"
  refine ⟨owned, selected, ?_, ?_⟩
  · refine exact.trans ?_
    rw [owned]
    decide
  · rw [selected]
    exact first _ selected rfl

end Registry

end RingCache.Cluster
