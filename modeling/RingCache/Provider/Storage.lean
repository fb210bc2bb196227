import RingCache.Provider.Distributed
import RingCache.Provider.Memory
import RingCache.Provider.Remote

namespace RingCache

inductive Storage where
  | memory (memory : Memory)
  | remote (remote : Remote)
  | distributed (cluster : Distributed)

namespace Storage

def name : Storage → String
  | .memory state => Memory.provider.name state
  | .remote state => Remote.provider.name state
  | .distributed state => Distributed.provider.name state

def run {α : Type} (memory : Memory → α × Memory) (remote : Remote → α × Remote)
    (distributed : Distributed → α × Distributed) : Storage → α × Storage
  | .memory state => let (result, state) := memory state; (result, .memory state)
  | .remote state => let (result, state) := remote state; (result, .remote state)
  | .distributed state => let (result, state) := distributed state; (result, .distributed state)

def provider : Provider Storage where
  name := name
  store key entry := run (Memory.provider.store key entry) (Remote.provider.store key entry)
    (Distributed.provider.store key entry)
  retrieve now key := run (Memory.provider.retrieve now key) (Remote.provider.retrieve now key)
    (Distributed.provider.retrieve now key)
  delete key := run (Memory.provider.delete key) (Remote.provider.delete key)
    (Distributed.provider.delete key)
  clear := run Memory.provider.clear Remote.provider.clear Distributed.provider.clear

def settle (now : Time.Instant) : Storage → Storage
  | .memory state => .memory (state.settle now)
  | .remote state => .remote (state.settle now)
  | .distributed state => .distributed (state.settle now)

def overtake (now : Time.Instant) (call : Cluster.Manner → Cluster.Conduct) : Storage → Storage
  | .remote state => .remote (state.overtake now call)
  | other => other

def fleet : Storage → Cluster.Fleet
  | .memory _ => .empty
  | .remote state => state.fleet
  | .distributed state => state.fleet

def mapFleet (change : Cluster.Fleet → Cluster.Fleet) : Storage → Storage
  | .memory state => .memory state
  | .remote state => .remote { state with fleet := change state.fleet }
  | .distributed state => .distributed { state with fleet := change state.fleet }

def coordinator : Storage → Option Cluster.Coordinator
  | .distributed state => some state.coordinator
  | _ => none

end Storage

end RingCache
