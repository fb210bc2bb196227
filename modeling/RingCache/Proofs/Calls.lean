import RingCache.Cluster.Health

/-!
Calls at stores in process. A call looks at one peer only and puts one peer back, so what a call does
is said of that peer: `Mutation.after` for the calls that change a store, and nothing but a longer
record of calls for those that read or probe it. A hindered call has no effect.
-/

namespace RingCache.Cluster

def Peer.InProcess (peer : Peer) : Prop := peer.backing = .own peer.table

def Backing.client? : Backing → Option Http.Client
  | .own _ => none
  | .remote client => some client

theorem Peer.inProcess_iff (peer : Peer) : peer.InProcess ↔ peer.backing.client? = none := by
  unfold InProcess table
  cases peer.backing <;> simp [Backing.client?]

namespace Mutation

variable (mutation : Mutation) (limit : Option Time.Span)

def hindrance (peer : Peer) : Option (Outcome Unit) :=
  (mutation.conduct peer.manner).hindrance limit

def after (peer : Peer) : Peer :=
  let table := if (mutation.hindrance limit peer).isNone then mutation.apply peer.table
    else peer.table
  { peer with calls := mutation.call :: peer.calls, backing := .own table }

@[simp] theorem after_inProcess (peer : Peer) : (mutation.after limit peer).InProcess := rfl

theorem after_table (peer : Peer) : (mutation.after limit peer).table =
    if (mutation.hindrance limit peer).isNone then mutation.apply peer.table else peer.table :=
  rfl

end Mutation

theorem Conduct.hindrance_not_done {α : Type} (limit : Option Time.Span) (conduct : Conduct)
    (value : α) : conduct.hindrance limit ≠ some (.done value) := by
  cases conduct with
  | delays ms => by_cases early : inTime limit (nanosOfMillis ms) <;> simp [hindrance, early]
  | _ => simp [hindrance]

namespace Fleet

variable (fleet : Fleet) (limit : Option Time.Span) (name key : String)

theorem peer_put (other : String) (peer : Peer) :
    (fleet.put name peer).peer other = if other = name then peer else fleet.peer other := by
  simp only [Fleet.peer, put, Table.get?_insert]
  split <;> simp

theorem change_eq (table : Table Bytes) (hindrance : Option (Outcome Unit))
    (effect : Table Bytes → Table Bytes) :
    change table hindrance effect =
      (hindrance.getD (.done ()), .own (if hindrance.isNone then effect table else table)) := by
  cases hindrance <;> rfl

/-- A call that changes a store, at a store in process. -/
theorem send_eq (mutation : Mutation) (inProcess : (fleet.peer name).InProcess) :
    mutation.send limit fleet name =
      ((mutation.hindrance limit (fleet.peer name)).getD (.done ()),
        fleet.put name (mutation.after limit (fleet.peer name))) := by
  rw [Mutation.send, inProcess]
  simp only [change_eq]
  rfl

structure Steady (before after : Fleet) : Prop where
  wire : after.wire = before.wire
  manners : ∀ name, (after.peer name).manner = (before.peer name).manner
  clients : ∀ name, (after.peer name).backing.client? = (before.peer name).backing.client?

theorem Steady.refl : fleet.Steady fleet := ⟨rfl, fun _ => rfl, fun _ => rfl⟩

theorem Steady.trans {first second third : Fleet} (early : first.Steady second)
    (late : second.Steady third) : first.Steady third :=
  ⟨late.wire.trans early.wire, fun name => (late.manners name).trans (early.manners name),
    fun name => (late.clients name).trans (early.clients name)⟩

theorem Steady.inProcess {before after : Fleet} (steady : before.Steady after) (name : String)
    (inProcess : (before.peer name).InProcess) : (after.peer name).InProcess := by
  rw [Peer.inProcess_iff, steady.clients name]
  exact (before.peer name).inProcess_iff.mp inProcess

variable (mutation : Mutation)

theorem send_peer : ∃ backing, backing.client? = (fleet.peer name).backing.client? ∧
    (mutation.send limit fleet name).2 = fleet.put name
      { fleet.peer name with calls := mutation.call :: (fleet.peer name).calls, backing } := by
  simp only [Mutation.send, change_eq]
  cases (fleet.peer name).backing <;> refine ⟨_, ?_, rfl⟩ <;> rfl

/-- The entries have no say in the answer, which comes from the manner of the store or over the
wire. -/
theorem send_answer {before after : Fleet} (wire : after.wire = before.wire)
    (manner : (after.peer name).manner = (before.peer name).manner)
    (client : (after.peer name).backing.client? = (before.peer name).backing.client?) :
    (mutation.send limit after name).1 = (mutation.send limit before name).1 := by
  simp only [Mutation.send, change_eq, wire, manner]
  cases later : (after.peer name).backing <;>
    cases earlier : (before.peer name).backing <;>
    simp_all [Backing.client?]

/-- A read at a store in process. -/
theorem get_eq (inProcess : (fleet.peer name).InProcess) :
    (fleet.get limit name key).1 =
      (((fleet.peer name).manner.get.hindrance limit).getD
        (.done ((fleet.tableOf name).get? key))) := by
  simp only [Fleet.get, tableOf]
  rw [inProcess]

def KeepsStores (before after : Fleet) : Prop :=
  ∀ name, (after.peer name).backing = (before.peer name).backing

theorem KeepsStores.trans {first second third : Fleet} (early : KeepsStores first second)
    (late : KeepsStores second third) : KeepsStores first third :=
  fun name => (late name).trans (early name)

theorem KeepsStores.table {before after : Fleet} (kept : KeepsStores before after)
    (name : String) : (after.peer name).table = (before.peer name).table := by
  rw [Peer.table, Peer.table, kept name]

theorem KeepsStores.inProcess {before after : Fleet} (kept : KeepsStores before after)
    (inProcess : (before.peer name).InProcess) : (after.peer name).InProcess := by
  rw [Peer.InProcess, kept.table name, kept name]
  exact inProcess

theorem put_keepsStores (peer : Peer) (same : peer.backing = (fleet.peer name).backing) :
    KeepsStores fleet (fleet.put name peer) := by
  intro other
  rw [peer_put]
  split
  · next named => rw [same, named]
  · rfl

structure Alike (before after : Fleet) : Prop where
  stores : before.KeepsStores after
  manners : ∀ name, (after.peer name).manner = (before.peer name).manner

theorem Alike.trans {first second third : Fleet} (early : first.Alike second)
    (late : second.Alike third) : first.Alike third :=
  ⟨early.stores.trans late.stores, fun name => (late.manners name).trans (early.manners name)⟩

theorem note_alike (call : Call) : fleet.Alike (fleet.note name call) := by
  refine ⟨fleet.put_keepsStores name _ rfl, fun other => ?_⟩
  rw [note, peer_put]
  split
  · next same => rw [same]
  · rfl

theorem get_alike : fleet.Alike (fleet.get limit name key).2 := fleet.note_alike name (.get key)

theorem get_keepsStores : KeepsStores fleet (fleet.get limit name key).2 :=
  (fleet.get_alike limit name key).stores

/-- A read is answered alike a second time. -/
theorem get_again :
    ((fleet.get limit name key).2.get limit name key).1 = (fleet.get limit name key).1 := by
  have backing := (fleet.get_alike limit name key).stores name
  have manner := (fleet.get_alike limit name key).manners name
  generalize called : (fleet.get limit name key).2 = after at backing manner
  have wire : after.wire = fleet.wire := called ▸ rfl
  simp only [Fleet.get, backing, manner, wire]

theorem probe_keepsStores (patience : Time.Span) :
    KeepsStores fleet (fleet.probe name patience).2 :=
  (fleet.note_alike name .health).stores

theorem setManner_keepsStores (change : Manner → Manner) :
    KeepsStores fleet (fleet.setManner name change) :=
  fleet.put_keepsStores name _ rfl

end Fleet

theorem Probes.run_keepsStores (patience : Time.Span) (nodes : List Node) (fleet : Fleet) :
    fleet.KeepsStores (Probes.run patience nodes fleet).2 := by
  induction nodes generalizing fleet with
  | nil => exact fun _ => rfl
  | cons node rest ih => exact (fleet.probe_keepsStores node.store patience).trans (ih _)

end RingCache.Cluster
