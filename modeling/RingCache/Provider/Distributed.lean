import RingCache.Cluster.Coordinator
import RingCache.Provider.Purge

namespace RingCache

structure Distributed where
  coordinator : Cluster.Coordinator
  fleet : Cluster.Fleet
  pending : List Purge

namespace Distributed

def retrieve (now : Time.Instant) (key : String) (cluster : Distributed) :
    Except CacheError Lookup × Distributed :=
  let (raw, fleet) := cluster.coordinator.get key cluster.fleet
  let found := raw >>= Envelope.lookup now
  (found, { cluster with fleet, pending := cluster.pending ++ Lookup.purges key found })

def put (key : String) (entry : Entry) (cluster : Distributed) :
    Except CacheError Unit × Distributed :=
  let (result, fleet) := cluster.coordinator.set key (Envelope.encode entry) cluster.fleet
  (result, { cluster with fleet })

def delete (key : String) (cluster : Distributed) : Except CacheError Unit × Distributed :=
  let (result, fleet) := cluster.coordinator.delete key cluster.fleet
  (result, { cluster with fleet })

def clear (cluster : Distributed) : Except CacheError Unit × Distributed :=
  let (result, fleet) := cluster.coordinator.clear cluster.fleet
  (result, { cluster with fleet })

def provider : Provider Distributed where
  name _ := "distributed"
  store := put
  retrieve := retrieve
  delete := delete
  clear := clear

def access : Purge.Access Distributed where
  read key cluster :=
    let (raw, fleet) := cluster.coordinator.get key cluster.fleet
    (raw.toOption, { cluster with fleet })
  remove key cluster := (cluster.delete key).2

def settle (now : Time.Instant) (cluster : Distributed) : Distributed :=
  Purge.runAll access now cluster.pending { cluster with pending := [] }

end Distributed

end RingCache
