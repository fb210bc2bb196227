import RingCache.Cache.Basic
import RingCache.Provider.Storage
import RingCache.Text.Blank

/-!
The choice of a provider. A configuration names a strategy and lists endpoints; the scheme of an
endpoint says how its node is reached.
-/

namespace RingCache

inductive Strategy where
  | memory
  | remote
  | distributed
  deriving DecidableEq, Repr

namespace Strategy

def name : Strategy → String
  | .memory => "Memory"
  | .remote => "Remote"
  | .distributed => "Distributed"

/-- The strategy with a name, whatever its case and the blanks around it. An unknown name stands for
the memory. -/
def ofName (name : String) : Strategy :=
  let word := (Text.trim name).toLower
  if word = "remote" ∨ word = "redis" then .remote
  else if word = "distributed" then .distributed
  else .memory

end Strategy

structure Placement where
  id : NodeId
  endpoint : String
  deriving DecidableEq, Repr

namespace Placement

/-- Reads an endpoint with its id in front, before the first equals sign. An endpoint alone is its
own id, and so is a text that begins like a URL or lacks one of the two parts. -/
def ofText (text : String) : Placement :=
  let chars := text.toList
  let front := chars.takeWhile (· ≠ '=')
  let behind := chars.drop (front.length + 1)
  if front.length < chars.length && !front.isEmpty && !Net.Url.hasScheme front &&
      !behind.isEmpty then
    ⟨⟨String.ofList (Text.trimChars front)⟩, String.ofList (Text.trimChars behind)⟩
  else
    let whole := Text.trim text
    ⟨⟨whole⟩, whole⟩

end Placement

def Cluster.Peer.connect (endpoint : String) (options : Cluster.Options) :
    Except CacheError Cluster.Peer :=
  if endpoint.startsWith "memory://" then .ok (.fresh endpoint)
  else if endpoint.startsWith "redis://" || endpoint.startsWith "rediss://" then
    .error (.config (.featureMissing endpoint))
  else
    match Http.Client.new endpoint options.timeout.span options.retryAttempts with
    | .ok client => .ok (.ofClient client)
    | .error error => .error error

namespace Storage

open Cluster

def connectAll (options : Options) : (place : Nat) → List String → Fleet →
    Except CacheError (List Node × Fleet)
  | _, [], fleet => .ok ([], fleet)
  | place, text :: rest, fleet => do
      let placement := Placement.ofText text
      let peer ← Peer.connect placement.endpoint options
      let store := s!"{place}"
      let (nodes, fleet) ← connectAll options (place + 1) rest (fleet.define store peer)
      return (.fresh placement.id placement.endpoint store :: nodes, fleet)

def ofConfig (config : Config) : Except CacheError Storage :=
  let options := config.cluster.options
  match Strategy.ofName config.cache.strategy with
  | .memory => .ok (.memory .empty)
  | .remote => match config.cache.distribution with
    | [] => .error (.config .noRemoteEndpoint)
    | text :: _ => do
        let peer ← Peer.connect (Placement.ofText text).endpoint options
        return .remote ⟨"0", Fleet.empty.define "0" peer, []⟩
  | .distributed => match config.cache.distribution with
    | [] => .error (.config .noDistributedEndpoints)
    | texts => do
        let (nodes, fleet) ← connectAll options 0 texts .empty
        return .distributed ⟨.new nodes options, fleet, []⟩

end Storage

def Cache.ofConfig (config : Config) (now : Time.Instant) : Except CacheError (Cache Storage) := do
  let storage ← Storage.ofConfig config
  return .fresh now (.ofSection config.cache) storage

end RingCache
