import RingCache.Cluster.Ring

/-!
The registry of nodes and the routing of keys. The ring is always the ring of the current node list;
health is a flag of each entry and never moves a key to another primary.
-/

namespace RingCache.Cluster

structure Node where
  id : NodeId
  endpoint : String
  /-- Relative capacity, for information only. -/
  weight : Nat
  healthy : Bool
  /-- The name under which the fleet knows the node's store. -/
  store : String
  deriving DecidableEq, Repr

namespace Node

def standardWeight : Nat := 100

def fresh (id : NodeId) (endpoint store : String) : Node :=
  ⟨id, endpoint, standardWeight, true, store⟩

def detailed (node : Node) : String :=
  s!"CacheNode \x7b id: {node.id.detailed}, endpoint: {Text.quoted node.endpoint}, " ++
    s!"weight: {node.weight}, healthy: {node.healthy} \x7d"

end Node

structure Registry where
  virtualNodes : Nat
  replicationFactor : Nat
  nodes : List Node
  ring : Ring
  deriving DecidableEq, Repr

namespace Registry

def new (virtualNodes replicationFactor : Nat) : Registry :=
  ⟨max virtualNodes 1, max replicationFactor 1, [], .empty⟩

def update (registry : Registry) (nodes : List Node) : Registry :=
  { registry with nodes, ring := .build (nodes.map Node.id) registry.virtualNodes }

/-- The primary of a key, healthy or not. -/
def select (registry : Registry) (key : String) : Option Node :=
  (registry.ring.ownerOf key).bind fun place => registry.nodes[place]?

def rotated (registry : Registry) (place : Nat) : List Node :=
  registry.nodes.drop place ++ registry.nodes.take place

/-- The first healthy entry of each id that is not yet `seen`, at most `left` of them. -/
def walk (seen : List NodeId) : (left : Nat) → List Node → List Node
  | 0, _ => []
  | _ + 1, [] => []
  | left + 1, node :: rest =>
      -- An unhealthy entry does not bar a later entry of its id.
      if node.healthy && !seen.contains node.id then node :: walk (node.id :: seen) left rest
      else walk seen (left + 1) rest

/-- The nodes that hold a key: healthy ones with distinct ids, from the primary on. -/
def replicas (registry : Registry) (key : String) : List Node :=
  match registry.ring.ownerOf key with
  | none => []
  | some place => walk [] registry.replicationFactor (registry.rotated place)

def mark (registry : Registry) (id : NodeId) (healthy : Bool) : Registry :=
  { registry with
    nodes := registry.nodes.map fun node => if node.id = id then { node with healthy } else node }

def knows (registry : Registry) (id : NodeId) : Bool := registry.nodes.any (·.id = id)

def healthyNodes (registry : Registry) : List Node := registry.nodes.filter Node.healthy

end Registry

end RingCache.Cluster
