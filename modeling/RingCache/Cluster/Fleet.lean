import RingCache.Http.Client
import RingCache.Table

/-!
The stores behind the nodes, by name. A peer keeps its own table, or stands for a store that is
reached over HTTP. How a peer answers each kind of call is its manner: it may serve, take its time or
fail, and say of its health what it likes. A call that fails or is still running at its deadline has
no effect.

A store may also crash under a call. That takes down whoever waits for the call: a task that was made
for it, whose end is then told by its handle, or else the caller, who is left without any answer. So a
crash is told of the tasks of writes only, and of nothing that is asked in place.
-/

namespace RingCache.Cluster

inductive Conduct where
  | serves
  | delays (ms : Nat)
  | fails (error : CacheError)
  deriving Repr

def Conduct.delay : Conduct → Nat
  | .delays ms => ms
  | _ => 0

structure Pulse where
  healthy : Bool
  ms : Nat
  deriving Repr

def Pulse.up : Pulse := ⟨true, 0⟩

def Pulse.down : Pulse := ⟨false, 0⟩

structure Manner where
  get : Conduct
  set : Conduct
  delete : Conduct
  health : Pulse
  /-- What the handle of a task tells that crashed as it set a key, if such tasks crash here. -/
  setCrash : Option String
  deleteCrash : Option String
  deriving Repr

def Manner.serving : Manner := ⟨.serves, .serves, .serves, .up, none, none⟩

inductive Call where
  | get (key : String)
  | set (key : String)
  | delete (key : String)
  | health
  deriving DecidableEq, Repr

namespace Call

def kind : Call → String
  | .get _ => "get"
  | .set _ => "set"
  | .delete _ => "delete"
  | .health => "health"

def kinds : List String := ["get", "set", "delete", "health"]

def key? : Call → Option String
  | .get key => some key
  | .set key => some key
  | .delete key => some key
  | .health => none

end Call

inductive Backing where
  | own (table : Table Bytes)
  | remote (client : Http.Client)

structure Peer where
  endpoint : String
  backing : Backing
  manner : Manner
  /-- The calls so far, latest first; a call counts from its beginning. -/
  calls : List Call

namespace Peer

def localEndpoint : String := "memory://local"

def fresh (endpoint : String) : Peer := ⟨endpoint, .own .empty, .serving, []⟩

def ofClient (client : Http.Client) : Peer :=
  ⟨client.endpoint, .remote client, .serving, []⟩

def count (peer : Peer) (kind : String) : Nat := peer.calls.countP (·.kind == kind)

/-- The peer's own entries; those of a remote store are not here. -/
def table (peer : Peer) : Table Bytes :=
  match peer.backing with
  | .own table => table
  | .remote _ => .empty

end Peer

inductive Outcome (α : Type) where
  | done (value : α)
  | refused (error : CacheError)
  | late
  deriving Repr

def inTime (limit : Option Time.Span) (nanos : Nat) : Bool :=
  match limit with
  | none => true
  | some span => nanos ≤ span.toNanos

def nanosOfMillis (ms : Nat) : Nat := ms * 1000000

def Conduct.hindrance {α : Type} (limit : Option Time.Span) : Conduct → Option (Outcome α)
  | .delays ms => if inTime limit (nanosOfMillis ms) then none else some .late
  | .fails error => some (.refused error)
  | .serves => none

structure Fleet where
  peers : Table Peer
  wire : Http.Transport Unit

namespace Fleet

def empty : Fleet := ⟨.empty, .unreachable⟩

def peer (fleet : Fleet) (name : String) : Peer :=
  (fleet.peers.get? name).getD (.fresh name)

def put (fleet : Fleet) (name : String) (peer : Peer) : Fleet :=
  { fleet with peers := fleet.peers.insert name peer }

def define (fleet : Fleet) (name : String) (peer : Peer) : Fleet :=
  if fleet.peers.contains name then fleet else fleet.put name peer

def tableOf (fleet : Fleet) (name : String) : Table Bytes := (fleet.peer name).table

def write (fleet : Fleet) (name key : String) (value : Bytes) : Fleet :=
  let peer := fleet.peer name
  fleet.put name { peer with backing := .own (peer.table.insert key value) }

def setManner (fleet : Fleet) (name : String) (change : Manner → Manner) : Fleet :=
  let peer := fleet.peer name
  fleet.put name { peer with manner := change peer.manner }

def note (fleet : Fleet) (name : String) (call : Call) : Fleet :=
  let peer := fleet.peer name
  fleet.put name { peer with calls := call :: peer.calls }

def exchangeNanos {σ α : Type} (exchange : Http.Exchange σ α) : Nat :=
  nanosOfMillis (exchange.pauses.foldl (· + ·) 0)

def ofExchange {σ α : Type} (limit : Option Time.Span)
    (exchange : Http.Exchange σ (Except CacheError α)) : Outcome α :=
  if inTime limit (exchangeNanos exchange) then
    match exchange.result with
    | .ok value => .done value
    | .error error => .refused error
  else .late

def noJitter : Nat → Nat := fun _ => 0

/-- What deleting a key does; an empty key stands for all keys. -/
def deleteEffect (key : String) (table : Table Bytes) : Table Bytes :=
  if key.isEmpty then .empty else table.erase key

def change (table : Table Bytes) (hindrance : Option (Outcome Unit))
    (effect : Table Bytes → Table Bytes) : Outcome Unit × Backing :=
  match hindrance with
  | none => (.done (), .own (effect table))
  | some outcome => (outcome, .own table)

end Fleet

inductive Mutation where
  | set (key : String) (value : Bytes)
  | delete (key : String)

namespace Mutation

def call : Mutation → Call
  | .set key _ => .set key
  | .delete key => .delete key

def conduct : Mutation → Manner → Conduct
  | .set _ _ => Manner.set
  | .delete _ => Manner.delete

def crash : Mutation → Manner → Option String
  | .set _ _ => Manner.setCrash
  | .delete _ => Manner.deleteCrash

def apply : Mutation → Table Bytes → Table Bytes
  | .set key value => fun table => table.insert key value
  | .delete key => Fleet.deleteEffect key

def exchange (wire : Http.Transport Unit) (client : Http.Client) :
    Mutation → Http.Exchange Unit (Except CacheError Unit)
  | .set key value => client.set wire Fleet.noJitter key value ()
  | .delete key => client.delete wire Fleet.noJitter key ()

def send (mutation : Mutation) (limit : Option Time.Span) (fleet : Fleet) (name : String) :
    Outcome Unit × Fleet :=
  let peer := fleet.peer name
  let calls := mutation.call :: peer.calls
  let (outcome, backing) := match peer.backing with
    | .own table =>
        Fleet.change table ((mutation.conduct peer.manner).hindrance limit) mutation.apply
    | .remote client =>
        (Fleet.ofExchange limit (mutation.exchange fleet.wire client), .remote client)
  (outcome, fleet.put name { peer with calls, backing })

/-- The nanoseconds that the call takes if it is let go on. -/
def lasts (mutation : Mutation) (fleet : Fleet) (name : String) : Nat :=
  let peer := fleet.peer name
  match peer.backing with
  | .own _ => nanosOfMillis (mutation.conduct peer.manner).delay
  | .remote client => Fleet.exchangeNanos (mutation.exchange fleet.wire client)

end Mutation

namespace Fleet

variable (fleet : Fleet) (limit : Option Time.Span) (name key : String)

def get : Outcome (Option Bytes) × Fleet :=
  let peer := fleet.peer name
  let outcome := match peer.backing with
    | .own table => (peer.manner.get.hindrance limit).getD (.done (table.get? key))
    | .remote client => ofExchange limit (client.get fleet.wire noJitter key ())
  (outcome, fleet.note name (.get key))

def set (value : Bytes) : Outcome Unit × Fleet := (Mutation.set key value).send limit fleet name

def delete : Outcome Unit × Fleet := (Mutation.delete key).send limit fleet name

/-- Asks a peer for its health: the answer, and after how many nanoseconds it comes or is given
up. -/
def probe (patience : Time.Span) : (Bool × Nat) × Fleet :=
  let peer := fleet.peer name
  let nanos := nanosOfMillis peer.manner.health.ms
  let answer := match peer.backing with
    | .remote client => ((client.health fleet.wire ()).1, 0)
    | .own _ =>
        if inTime (some patience) nanos then (peer.manner.health.healthy, nanos)
        else (false, patience.toNanos)
  (answer, fleet.note name .health)

end Fleet

end RingCache.Cluster
