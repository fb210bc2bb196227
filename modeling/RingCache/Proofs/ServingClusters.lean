import RingCache.Proofs.FanOut
import RingCache.Proofs.RegistryChanges

/-!
Clusters whose nodes are all healthy and whose stores serve every call. Entries may share an id or a
store: a mutation that reaches a store twice leaves what it leaves once. Such a cluster is one map of
octets, which is read at the primaries.
-/

namespace RingCache.Cluster

structure Peer.Serving (peer : Peer) : Prop where
  inProcess : peer.InProcess
  get : peer.manner.get = .serves
  set : peer.manner.set = .serves
  delete : peer.manner.delete = .serves
  uncrashed : peer.manner.setCrash = none ∧ peer.manner.deleteCrash = none

theorem Peer.fresh_serving (endpoint : String) : (Peer.fresh endpoint).Serving :=
  ⟨rfl, rfl, rfl, rfl, rfl, rfl⟩

theorem Peer.Serving.hindrance {peer : Peer} (serving : peer.Serving) (mutation : Mutation)
    (limit : Option Time.Span) : mutation.hindrance limit peer = none := by
  cases mutation with
  | set key value => rw [Mutation.hindrance, Mutation.conduct, serving.set, Conduct.hindrance]
  | delete key => rw [Mutation.hindrance, Mutation.conduct, serving.delete, Conduct.hindrance]

theorem Peer.Serving.served {peer : Peer} (serving : peer.Serving) (mutation : Mutation)
    (timeout : Time.Span) : mutation.served timeout peer = true := by
  have standing : mutation.crash peer.manner = none := by
    cases mutation with
    | set key value => exact serving.uncrashed.1
    | delete key => exact serving.uncrashed.2
  rw [Mutation.served, standing, serving.hindrance]
  rfl

theorem Peer.Serving.after {peer : Peer} (serving : peer.Serving) (mutation : Mutation)
    (limit : Option Time.Span) : (mutation.after limit peer).Serving :=
  ⟨rfl, serving.get, serving.set, serving.delete, serving.uncrashed⟩

theorem Peer.Serving.after_table {peer : Peer} (serving : peer.Serving) (mutation : Mutation)
    (limit : Option Time.Span) : (mutation.after limit peer).table = mutation.apply peer.table := by
  rw [Mutation.after_table, serving.hindrance, Option.isNone_none, if_pos rfl]

/-- A read at a store that serves finds what is there and changes no store. -/
theorem Fleet.get_serving (fleet : Fleet) (limit : Option Time.Span) (name key : String)
    (serving : (fleet.peer name).Serving) :
    (fleet.get limit name key).1 = .done ((fleet.tableOf name).get? key) ∧
      ∀ other, (fleet.peer other).Serving →
        ((fleet.get limit name key).2.peer other).Serving := by
  constructor
  · rw [fleet.get_eq limit name key serving.inProcess, serving.get, Conduct.hindrance,
      Option.getD_none]
  · intro other otherServing
    simp only [Fleet.get, note, peer_put]
    split
    · exact ⟨serving.inProcess, serving.get, serving.set, serving.delete, serving.uncrashed⟩
    · exact otherServing

/-- Calls at stores that serve all succeed, and leave stores that serve. -/
theorem Coordinator.callAll_serving (timeout : Time.Span) (order : List Task → List Task)
    (mutation : Mutation) (targets : List Node) (fleet : Fleet)
    (permutes : ∀ tasks, (order tasks).Perm tasks)
    (serving : ∀ node ∈ targets, (fleet.peer node.store).Serving) :
    let called := callAll timeout order mutation targets fleet
    called.1 = [] ∧ ∀ name, (fleet.peer name).Serving → (called.2.peer name).Serving := by
  have reports := callAll_reports timeout order mutation targets fleet permutes
  have steady := callAll_steady timeout order mutation targets fleet
  refine ⟨reports.trans (List.filterMap_eq_nil_iff.mpr fun node member => ?_), fun name before => ?_⟩
  · have here := serving node member
    rw [mutation.report_none_iff_served timeout fleet node here.inProcess]
    exact here.served mutation timeout
  · refine ⟨steady.inProcess name before.inProcess, ?_, ?_, ?_, ?_⟩ <;> rw [steady.manners name]
    · exact before.get
    · exact before.set
    · exact before.delete
    · exact before.uncrashed

structure Serving (coordinator : Coordinator) (fleet : Fleet) : Prop where
  positive : 0 < coordinator.registry.replicationFactor
  routed : ∀ key, ∃ primary, coordinator.registry.select key = some primary
  healthy : ∀ node ∈ coordinator.registry.nodes, node.healthy = true
  stores : ∀ node ∈ coordinator.registry.nodes, (fleet.peer node.store).Serving

theorem new_serving (nodes : List Node) (options : Options) (fleet : Fleet) (nonempty : nodes ≠ [])
    (healthy : ∀ node ∈ nodes, node.healthy = true)
    (stores : ∀ node ∈ nodes, (fleet.peer node.store).Serving) :
    Serving (.new nodes options) fleet where
  positive := Nat.lt_of_lt_of_le Nat.one_pos (Nat.le_max_right _ 1)
  routed key := by
    have current := Registry.change_current (Registry.new_current options.normalized.virtualNodes
      options.normalized.replicationFactor) (.update nodes)
    cases selected : (Coordinator.new nodes options).registry.select key with
    | none => exact absurd ((current.select_none_iff key).mp selected) nonempty
    | some primary => exact ⟨primary, rfl⟩
  healthy := healthy
  stores := stores

/-- The cluster holds these octets: a read of a key finds them at the key's primary. -/
def Holds (coordinator : Coordinator) (fleet : Fleet) (map : String → Option Bytes) : Prop :=
  ∀ key primary, coordinator.registry.select key = some primary →
    (fleet.tableOf primary.store).get? key = map key

namespace Serving

variable {coordinator : Coordinator} {fleet : Fleet} {map : String → Option Bytes}

/-- A read succeeds, finds what the cluster holds, and changes nothing. -/
theorem read (serving : Serving coordinator fleet) (holds : Holds coordinator fleet map)
    (key : String) :
    (coordinator.get key fleet).1 = .ok (map key) ∧
      Serving coordinator (coordinator.get key fleet).2 ∧
      Holds coordinator (coordinator.get key fleet).2 map := by
  obtain ⟨primary, selected⟩ := serving.routed key
  have member := coordinator.registry.select_mem key primary selected
  obtain ⟨found, kept⟩ := fleet.get_serving (some coordinator.timeout) primary.store key
    (serving.stores primary member)
  have stores := fleet.get_keepsStores (some coordinator.timeout) primary.store key
  have called : coordinator.get key fleet = (.ok ((fleet.tableOf primary.store).get? key),
      (fleet.get (some coordinator.timeout) primary.store key).2) := by
    simp only [Coordinator.get, selected, serving.healthy primary member, if_true, found,
      Outcome.result]
  rw [called, holds key primary selected]
  refine ⟨rfl, ⟨serving.positive, serving.routed, serving.healthy, ?_⟩, ?_⟩
  · exact fun node inNodes => kept node.store (serving.stores node inNodes)
  · intro other otherPrimary otherSelected
    rw [Fleet.tableOf, stores.table]
    exact holds other otherPrimary otherSelected

/-- A write succeeds and changes what the cluster holds under the keys that it concerns. -/
theorem write (serving : Serving coordinator fleet) (holds : Holds coordinator fleet map)
    (write : Write) (keyed : write ≠ .delete "") :
    (write.run coordinator fleet).1 = .ok () ∧
      Serving coordinator (write.run coordinator fleet).2 ∧
      Holds coordinator (write.run coordinator fleet).2
        fun key => (write.content key).getD (map key) := by
  have targets := Write.mem_targets coordinator.registry write
  have stores := fun node member => serving.stores node (targets node member).1
  have permutes := Task.inTurn_perm coordinator.timeout fleet
  obtain ⟨failures, kept⟩ := Coordinator.callAll_serving coordinator.timeout _ write.mutation
    (write.targets coordinator.registry) fleet permutes stores
  have placed : write.unplaced coordinator.registry = false := by
    cases write with
    | set key value =>
        obtain ⟨primary, selected⟩ := serving.routed key
        obtain ⟨others, replicas⟩ := coordinator.registry.replicas_healthy_primary key primary
          selected (serving.healthy primary (coordinator.registry.select_mem key primary selected))
          serving.positive
        rw [Write.unplaced, replicas]
        rfl
    | _ => rfl
  rw [write.run_eq, Write.calls, failures, placed]
  refine ⟨rfl, ⟨serving.positive, serving.routed, serving.healthy, ?_⟩, ?_⟩
  · exact fun node member => kept node.store (serving.stores node member)
  · intro key primary selected
    have inRegistry := coordinator.registry.select_mem key primary selected
    dsimp only
    rw [Coordinator.callAll_content _ _ _ _ fleet permutes (fun key => write.content key)
      (fun table key => write.apply_content key table keyed)
      (fun node member => (stores node member).inProcess), holds key primary selected]
    cases concerned : write.content key with
    | none => simp
    | some content =>
        have target := write.primary_targeted coordinator.registry key primary selected
          (serving.healthy primary inRegistry) serving.positive (by simp [concerned])
        rw [if_pos ⟨List.mem_map_of_mem target,
          (serving.stores primary inRegistry).served write.mutation coordinator.timeout⟩]

end Serving

end RingCache.Cluster
