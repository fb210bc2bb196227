import RingCache.Cluster.Options
import RingCache.Cluster.Registry
import RingCache.Cluster.Task

/-!
The coordinator of a distributed cache. A read asks the key's primary only; a write or a deletion
goes to every replica under one deadline and fails if any of them fails, and what other nodes have
done stays done. Clearing goes to every healthy entry of the registry.
-/

namespace RingCache.Cluster

structure Coordinator where
  options : Options
  registry : Registry
  deriving DecidableEq, Repr

namespace Coordinator

def new (nodes : List Node) (options : Options) : Coordinator :=
  let options := options.normalized
  ⟨options, (Registry.new options.virtualNodes options.replicationFactor).update nodes⟩

def update (coordinator : Coordinator) (nodes : List Node) : Coordinator :=
  { coordinator with registry := coordinator.registry.update nodes }

def mark (coordinator : Coordinator) (id : NodeId) (healthy : Bool) : Coordinator :=
  { coordinator with registry := coordinator.registry.mark id healthy }

def timeout (coordinator : Coordinator) : Time.Span := coordinator.options.timeout.span

def get (coordinator : Coordinator) (key : String) (fleet : Fleet) :
    Except CacheError (Option Bytes) × Fleet :=
  match coordinator.registry.select key with
  | none => (.error .noHealthyNode, fleet)
  | some node =>
      if node.healthy then
        let (outcome, fleet) := fleet.get (some coordinator.timeout) node.store key
        (outcome.result coordinator.timeout, fleet)
      else (.error (.nodeUnavailable node.id), fleet)

def failureReason : Joined → Option String
  | .ok (.ok ()) => none
  | .ok (.error error) => some error.message
  | .error report => some s!"task failed: {report}"

def spawn (mutation : Mutation) (nodes : List Node) : List (NodeId × Task) :=
  nodes.zipIdx.map fun (node, handle) => (node.id, ⟨handle, node.store, mutation⟩)

/-- Makes a call at each of some nodes, in tasks that come to their ends in some order: the failures
in the order of the nodes. -/
def callAll (timeout : Time.Span) (order : List Task → List Task) (mutation : Mutation)
    (nodes : List Node) (fleet : Fleet) : List NodeFailure × Fleet :=
  let (ids, tasks) := (spawn mutation nodes).unzip
  let (ends, fleet) := Task.runAll timeout (order tasks) fleet
  let joined := Task.joinAll (tasks.map Task.handle) ends
  let failures := (ids.zip joined).filterMap fun (node, joined) =>
    (failureReason joined).map (⟨node, ·⟩)
  (failures, fleet)

def fanOutIn (order : List Task → List Task) (coordinator : Coordinator) (operation : String)
    (nodes : List Node) (mutation : Mutation) (fleet : Fleet) : Except CacheError Unit × Fleet :=
  let targets := nodes.filter Node.healthy
  let (failures, fleet) := callAll coordinator.timeout order mutation targets fleet
  if failures.isEmpty then (.ok (), fleet)
  else (.error (.replication operation targets.length failures), fleet)

def fanOut (coordinator : Coordinator) (operation : String) (nodes : List Node)
    (mutation : Mutation) (fleet : Fleet) : Except CacheError Unit × Fleet :=
  coordinator.fanOutIn (Task.inTurn coordinator.timeout fleet) operation nodes mutation fleet

def set (coordinator : Coordinator) (key : String) (value : Bytes) (fleet : Fleet) :
    Except CacheError Unit × Fleet :=
  let replicas := coordinator.registry.replicas key
  if replicas.isEmpty then (.error .noHealthyNode, fleet)
  else coordinator.fanOut "set" replicas (.set key value) fleet

/-- Deletes a key at its replicas; without replicas there is nothing to delete. -/
def delete (coordinator : Coordinator) (key : String) (fleet : Fleet) :
    Except CacheError Unit × Fleet :=
  coordinator.fanOut "delete" (coordinator.registry.replicas key) (.delete key) fleet

def clear (coordinator : Coordinator) (fleet : Fleet) : Except CacheError Unit × Fleet :=
  coordinator.fanOut "clear" coordinator.registry.healthyNodes (.delete "") fleet

end Coordinator

end RingCache.Cluster
