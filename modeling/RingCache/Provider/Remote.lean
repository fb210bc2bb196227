import RingCache.Cluster.Coordinator
import RingCache.Provider.Purge

/-!
The provider that keeps envelopes at one node. It makes its calls in place and without a deadline.
-/

namespace RingCache

structure Remote where
  store : String
  fleet : Cluster.Fleet
  pending : List Purge

namespace Remote

open Cluster

def result {α : Type} (outcome : Outcome α) : Except CacheError α := outcome.result .zero

def retrieve (now : Time.Instant) (key : String) (remote : Remote) :
    Except CacheError Lookup × Remote :=
  let (outcome, fleet) := remote.fleet.get none remote.store key
  let found := result outcome >>= Envelope.lookup now
  (found, { remote with fleet, pending := remote.pending ++ Lookup.purges key found })

def put (key : String) (entry : Entry) (remote : Remote) : Except CacheError Unit × Remote :=
  let (outcome, fleet) := remote.fleet.set none remote.store key (Envelope.encode entry)
  (result outcome, { remote with fleet })

def delete (key : String) (remote : Remote) : Except CacheError Unit × Remote :=
  let (outcome, fleet) := remote.fleet.delete none remote.store key
  (result outcome, { remote with fleet })

def provider : Provider Remote where
  name _ := "remote"
  store := put
  retrieve := retrieve
  delete := delete
  clear := delete ""

def access : Purge.Access Remote where
  read key remote :=
    let (outcome, fleet) := remote.fleet.get none remote.store key
    ((result outcome).toOption, { remote with fleet })
  remove key remote := (remote.delete key).2

def advance (now : Time.Instant) (remote : Remote) : Remote :=
  let (left, remote) := Purge.stepAll access now remote.pending { remote with pending := [] }
  { remote with pending := left }

/-- What the purges that are left have done when a call that is delayed at the node is acted on. -/
def overtake (now : Time.Instant) (call : Manner → Conduct) (remote : Remote) : Remote :=
  let manner := (remote.fleet.peer remote.store).manner
  let reread := manner.get.delay
  let remove := reread + manner.delete.delay
  let remote := if reread < (call manner).delay then remote.advance now else remote
  if remove < (call manner).delay then remote.advance now else remote

def settle (now : Time.Instant) (remote : Remote) : Remote :=
  Purge.runAll access now remote.pending { remote with pending := [] }

end Remote

end RingCache
