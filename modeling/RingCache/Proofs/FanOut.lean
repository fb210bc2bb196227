import RingCache.Proofs.Routing
import RingCache.Proofs.TaskRuns

/-!
Fan-outs. Each target answers as if it were called alone, in whatever order the tasks come to their
ends: the failures are those of the targets one by one, in the order of the targets, and a store that
belongs to no target is left alone. In process, the manner of a target's store decides whether its call
has an effect or is reported.
-/

namespace RingCache.Cluster

def Mutation.alone (mutation : Mutation) (timeout : Time.Span) (fleet : Fleet) (node : Node) :
    Joined × Fleet :=
  Task.run timeout ⟨0, node.store, mutation⟩ fleet

def Mutation.report (mutation : Mutation) (timeout : Time.Span) (fleet : Fleet) (node : Node) :
    Option NodeFailure :=
  (Coordinator.failureReason (mutation.alone timeout fleet node).1).map (⟨node.id, ·⟩)

theorem Coordinator.failureReason_none_iff (joined : Joined) :
    failureReason joined = none ↔ joined = .ok (.ok ()) := by
  rcases joined with report | error | ⟨⟩ <;> simp [failureReason]

theorem Mutation.report_none_iff (mutation : Mutation) (timeout : Time.Span) (fleet : Fleet)
    (node : Node) :
    mutation.report timeout fleet node = none ↔
      (mutation.alone timeout fleet node).1 = .ok (.ok ()) := by
  rw [report, Option.map_eq_none_iff, Coordinator.failureReason_none_iff]

theorem Mutation.report_none_iff_served (mutation : Mutation) (timeout : Time.Span) (fleet : Fleet)
    (node : Node) (inProcess : (fleet.peer node.store).InProcess) :
    mutation.report timeout fleet node = none ↔
      mutation.served timeout (fleet.peer node.store) = true := by
  rw [report_none_iff, ← mutation.joined_done_iff, alone, Task.run_eq timeout _ fleet inProcess]

theorem Mutation.report_node (mutation : Mutation) (timeout : Time.Span) (fleet : Fleet)
    (node : Node) (failure : NodeFailure)
    (reported : mutation.report timeout fleet node = some failure) : failure.node = node.id := by
  obtain ⟨reason, _, rfl⟩ := Option.map_eq_some_iff.mp reported
  rfl

namespace Coordinator

variable (timeout : Time.Span) (order : List Task → List Task) (mutation : Mutation)

theorem spawn_handles_nodup (nodes : List Node) :
    (((spawn mutation nodes).map Prod.snd).map Task.handle).Nodup := by
  have handles : ((spawn mutation nodes).map Prod.snd).map Task.handle = nodes.zipIdx.map Prod.snd := by
    simp only [spawn, List.map_map]
    rfl
  rw [handles, List.zipIdx_map_snd]
  exact List.nodup_range'

theorem spawn_stores (nodes : List Node) :
    ((spawn mutation nodes).map Prod.snd).map Task.store = nodes.map Node.store := by
  conv_rhs => rw [← List.zipIdx_map_fst 0 nodes, List.map_map]
  simp only [spawn, List.map_map]
  rfl

theorem spawn_uniform (nodes : List Node) :
    ∀ task ∈ (spawn mutation nodes).map Prod.snd, task.mutation = mutation := by
  simp only [spawn, List.map_map, List.forall_mem_map]
  exact fun _ _ => rfl

variable (targets : List Node) (fleet : Fleet)

theorem callAll_steady : fleet.Steady (callAll timeout order mutation targets fleet).2 := by
  simp only [callAll, List.unzip_eq_map]
  exact (Task.runAll_ends timeout fleet _).2

/-- A fan-out to healthy nodes calls all of them. -/
theorem fanOutIn_healthy (coordinator : Coordinator) (operation : String)
    (healthy : ∀ node ∈ targets, node.healthy = true) :
    let called := callAll coordinator.timeout order mutation targets fleet
    coordinator.fanOutIn order operation targets mutation fleet =
      (if called.1.isEmpty then .ok ()
        else .error (.replication operation targets.length called.1), called.2) := by
  have all : targets.filter Node.healthy = targets := List.filter_eq_self.mpr healthy
  simp only [fanOutIn, all]
  split <;> rfl

variable (permutes : ∀ tasks, (order tasks).Perm tasks)

include permutes

/-- Each target is reported by itself, in the order of the targets, also where targets share a store:
no task changes how a store answers. -/
theorem callAll_reports :
    (callAll timeout order mutation targets fleet).1 =
      targets.filterMap (mutation.report timeout fleet) := by
  have joined := Task.joinAll_runAll timeout fleet
    (permutes ((spawn mutation targets).map Prod.snd)) (spawn_handles_nodup mutation targets)
  simp only [callAll, List.unzip_eq_map, joined]
  rw [List.map_map, List.zip_map', List.filterMap_map, spawn, List.filterMap_map]
  conv_rhs => rw [← List.zipIdx_map_fst 0 targets, List.filterMap_map]
  rfl

theorem callAll_other (name : String) (apart : name ∉ targets.map Node.store) :
    (callAll timeout order mutation targets fleet).2.peer name = fleet.peer name := by
  simp only [callAll, List.unzip_eq_map]
  apply Task.runAll_other
  rw [((permutes _).map Task.store).mem_iff, spawn_stores]
  exact apart

/-- Separate targets are called once each, and each is left as if it were called alone. -/
theorem callAll_alone (separate : (targets.map Node.store).Nodup) (node : Node)
    (member : node ∈ targets) :
    (callAll timeout order mutation targets fleet).2.peer node.store =
      (mutation.alone timeout fleet node).2.peer node.store := by
  have reordered := permutes ((spawn mutation targets).map Prod.snd)
  have apart : ((order ((spawn mutation targets).map Prod.snd)).map Task.store).Nodup := by
    rw [(reordered.map Task.store).nodup_iff, spawn_stores]
    exact separate
  have reached : node.store ∈ ((spawn mutation targets).map Prod.snd).map Task.store := by
    rw [spawn_stores]
    exact List.mem_map_of_mem member
  obtain ⟨task, spawned, same⟩ := List.mem_map.mp reached
  obtain ⟨handle, store, other⟩ := task
  obtain rfl : store = node.store := same
  obtain rfl : other = mutation := spawn_uniform mutation targets _ spawned
  simp only [callAll, List.unzip_eq_map]
  exact Task.runAll_alone timeout fleet _ apart _ (reordered.mem_iff.mpr spawned)

/-- A store that is called holds what the mutation leaves, unless the store's manner keeps its tasks
from their effect: how often it is called makes no difference. -/
theorem callAll_content (content : String → Option (Option Bytes))
    (effect : ∀ (table : Table Bytes) (key : String),
      (mutation.apply table).get? key = (content key).getD (table.get? key))
    (inProcess : ∀ node ∈ targets, (fleet.peer node.store).InProcess) (name key : String) :
    ((callAll timeout order mutation targets fleet).2.tableOf name).get? key =
      if name ∈ targets.map Node.store ∧ mutation.served timeout (fleet.peer name) then
        (content key).getD ((fleet.tableOf name).get? key)
      else (fleet.tableOf name).get? key := by
  have reordered := permutes ((spawn mutation targets).map Prod.snd)
  have stores := spawn_stores mutation targets
  simp only [callAll, List.unzip_eq_map]
  rw [Task.runAll_content timeout fleet mutation content effect]
  · simp only [(reordered.map Task.store).mem_iff, stores]
  · exact fun task member => spawn_uniform mutation targets task (reordered.mem_iff.mp member)
  · intro task member
    have called : task.store ∈ targets.map Node.store := by
      rw [← stores]
      exact List.mem_map_of_mem (reordered.mem_iff.mp member)
    obtain ⟨node, target, same⟩ := List.mem_map.mp called
    exact same ▸ inProcess node target

end Coordinator

inductive Write where
  | set (key : String) (value : Bytes)
  | delete (key : String)
  | clear

namespace Write

def mutation : Write → Mutation
  | .set key value => .set key value
  | .delete key => .delete key
  | .clear => .delete ""

def operation : Write → String
  | .set _ _ => "set"
  | .delete _ => "delete"
  | .clear => "clear"

def targets (registry : Registry) : Write → List Node
  | .set key _ => registry.replicas key
  | .delete key => registry.replicas key
  | .clear => registry.healthyNodes

/-- A value that no node can take; what is to be deleted need not have a place. -/
def unplaced (registry : Registry) : Write → Bool
  | .set key _ => (registry.replicas key).isEmpty
  | _ => false

def run (coordinator : Coordinator) : Write → Fleet → Except CacheError Unit × Fleet
  | .set key value => coordinator.set key value
  | .delete key => coordinator.delete key
  | .clear => coordinator.clear

theorem mem_targets (registry : Registry) (write : Write) (node : Node)
    (member : node ∈ write.targets registry) : node ∈ registry.nodes ∧ node.healthy = true := by
  cases write with
  | set key value => exact registry.mem_replicas key node member
  | delete key => exact registry.mem_replicas key node member
  | clear => exact (registry.mem_healthyNodes node).mp member

theorem targets_unplaced (registry : Registry) (write : Write)
    (unplaced : write.unplaced registry = true) : write.targets registry = [] := by
  cases write with
  | set key value => exact List.isEmpty_iff.mp unplaced
  | _ => contradiction

theorem targets_ids_nodup (registry : Registry) (write : Write)
    (ids : (registry.nodes.map Node.id).Nodup) :
    ((write.targets registry).map Node.id).Nodup := by
  cases write with
  | set key value => exact registry.replicas_ids_nodup key
  | delete key => exact registry.replicas_ids_nodup key
  | clear => exact ids.sublist (List.filter_sublist.map _)

/-- Targets are distinct entries of the registry, so separate entries have separate stores. -/
theorem targets_stores_nodup (registry : Registry) (write : Write)
    (stores : (registry.nodes.map Node.store).Nodup) :
    ((write.targets registry).map Node.store).Nodup := by
  cases write with
  | set key value => exact registry.replicas_stores_nodup key stores
  | delete key => exact registry.replicas_stores_nodup key stores
  | clear => exact stores.sublist (List.filter_sublist.map _)

def runIn (order : List Task → List Task) (coordinator : Coordinator) (write : Write)
    (fleet : Fleet) : Except CacheError Unit × Fleet :=
  if write.unplaced coordinator.registry then (.error .noHealthyNode, fleet)
  else coordinator.fanOutIn order write.operation (write.targets coordinator.registry)
    write.mutation fleet

theorem run_eq_runIn (coordinator : Coordinator) (write : Write) (fleet : Fleet) :
    write.run coordinator fleet =
      write.runIn (Task.inTurn coordinator.timeout fleet) coordinator fleet := by
  cases write <;> rfl

def calls (order : List Task → List Task) (coordinator : Coordinator) (write : Write)
    (fleet : Fleet) : List NodeFailure × Fleet :=
  Coordinator.callAll coordinator.timeout order write.mutation
    (write.targets coordinator.registry) fleet

theorem runIn_eq (order : List Task → List Task) (permutes : ∀ tasks, (order tasks).Perm tasks)
    (coordinator : Coordinator) (write : Write) (fleet : Fleet) :
    write.runIn order coordinator fleet =
      (if write.unplaced coordinator.registry then .error .noHealthyNode
        else if (write.calls order coordinator fleet).1.isEmpty then .ok ()
        else .error (.replication write.operation (write.targets coordinator.registry).length
          (write.calls order coordinator fleet).1),
        (write.calls order coordinator fleet).2) := by
  unfold runIn
  split
  · next unplaced =>
      have targets := targets_unplaced coordinator.registry write unplaced
      -- No task is there to be ordered.
      have idle : order [] = [] := (permutes []).eq_nil
      simp [calls, targets, Coordinator.callAll, Coordinator.spawn, idle, Task.runAll]
  · exact Coordinator.fanOutIn_healthy order write.mutation _ fleet coordinator write.operation
      fun node member => (mem_targets coordinator.registry write node member).2

theorem run_eq (coordinator : Coordinator) (write : Write) (fleet : Fleet) :
    let called := write.calls (Task.inTurn coordinator.timeout fleet) coordinator fleet
    write.run coordinator fleet =
      (if write.unplaced coordinator.registry then .error .noHealthyNode
        else if called.1.isEmpty then .ok ()
        else .error (.replication write.operation (write.targets coordinator.registry).length
          called.1), called.2) := by
  rw [run_eq_runIn, runIn_eq _ (Task.inTurn_perm coordinator.timeout fleet)]

def failedNodes : Except CacheError Unit → List NodeId
  | .ok _ => []
  | .error error => error.failedNodes

theorem run_exact (coordinator : Coordinator) (write : Write) (fleet : Fleet)
    (inProcess : ∀ node ∈ write.targets coordinator.registry, (fleet.peer node.store).InProcess)
    (separate : ((write.targets coordinator.registry).map Node.store).Nodup) :
    failedNodes (write.run coordinator fleet).1 =
        ((write.targets coordinator.registry).filterMap
          (write.mutation.report coordinator.timeout fleet)).map NodeFailure.node ∧
      ∀ name, (write.run coordinator fleet).2.peer name =
        if name ∈ (write.targets coordinator.registry).map Node.store then
          write.mutation.left coordinator.timeout (fleet.peer name)
        else fleet.peer name := by
  have permutes := Task.inTurn_perm coordinator.timeout fleet
  have failures : (write.calls (Task.inTurn coordinator.timeout fleet) coordinator fleet).1 =
      (write.targets coordinator.registry).filterMap
        (write.mutation.report coordinator.timeout fleet) :=
    Coordinator.callAll_reports _ _ write.mutation _ fleet permutes
  refine ⟨?_, fun name => ?_⟩
  · rw [run_eq, ← failures]
    split
    · next unplaced =>
        have targets := targets_unplaced coordinator.registry write unplaced
        simp [failures, targets, failedNodes, CacheError.failedNodes]
    · split
      · next empty => simp [List.isEmpty_iff.mp empty, failedNodes]
      · rfl
  · have ran : (write.run coordinator fleet).2 =
        (write.calls (Task.inTurn coordinator.timeout fleet) coordinator fleet).2 := by rw [run_eq]
    rw [ran]
    split
    · next target =>
        obtain ⟨node, member, rfl⟩ := List.mem_map.mp target
        refine (Coordinator.callAll_alone _ _ write.mutation _ fleet permutes separate node
          member).trans ?_
        rw [Mutation.alone, Task.run_eq _ _ fleet (inProcess node member), Fleet.peer_put,
          if_pos rfl]
    · next apart => exact Coordinator.callAll_other _ _ write.mutation _ fleet permutes name apart

/-- What a write leaves under a key where it is served, if the key is any of its business. -/
def content (key : String) : Write → Option (Option Bytes)
  | .set other value => if other = key then some (some value) else none
  | .delete other => if other = key then some none else none
  | .clear => some none

variable (registry : Registry) (write : Write) (key : String)

theorem apply_content (table : Table Bytes) (keyed : write ≠ .delete "") :
    (write.mutation.apply table).get? key = (write.content key).getD (table.get? key) := by
  cases write with
  | set other value =>
      by_cases same : key = other
      · simp [mutation, Mutation.apply, content, Table.get?_insert, same]
      · simp [mutation, Mutation.apply, content, Table.get?_insert, same, Ne.symm same]
  | delete other =>
      have named : other.isEmpty = false := by
        simpa using fun empty : other = "" => keyed (empty ▸ rfl)
      by_cases same : key = other
      · simp [mutation, Mutation.apply, content, Fleet.deleteEffect, named, Table.get?_erase, same]
      · simp [mutation, Mutation.apply, content, Fleet.deleteEffect, named, Table.get?_erase, same,
          Ne.symm same]
  | clear => simp [mutation, Mutation.apply, content, Fleet.deleteEffect]

/-- A write of a key goes to the key's primary if that is flagged healthy. -/
theorem primary_targeted (primary : Node) (selected : registry.select key = some primary)
    (healthy : primary.healthy = true) (positive : 0 < registry.replicationFactor)
    (concerned : (write.content key).isSome) : primary ∈ write.targets registry := by
  obtain ⟨others, replicas⟩ := registry.replicas_healthy_primary key primary selected healthy positive
  have first : primary ∈ registry.replicas key := replicas ▸ List.mem_cons_self
  cases write with
  | set other value =>
      have same : other = key := by by_contra different; simp [content, different] at concerned
      exact same ▸ first
  | delete other =>
      have same : other = key := by by_contra different; simp [content, different] at concerned
      exact same ▸ first
  | clear =>
      exact (registry.mem_healthyNodes primary).mpr
        ⟨registry.select_mem key primary selected, healthy⟩

end Write

end RingCache.Cluster
