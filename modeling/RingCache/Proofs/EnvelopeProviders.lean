import Mathlib.Logic.Function.Basic
import RingCache.Proofs.EnvelopeText
import RingCache.Proofs.ServingClusters
import RingCache.Provider.Storage

/-!
Providers of envelopes. One node or a cluster of healthy nodes, as long as every store serves, is a
map of octets: each call of the provider, and each call of a purge, reads or changes that map and
nothing else. What holds of all interleavings of such calls is said of the map.
-/

namespace RingCache

namespace Envelope

theorem lookup_encode (now : Time.Instant) (entry : Entry) (sound : entry.Exact) :
    lookup now (some (encode entry)) =
      .ok (if entry.expiredAt now then .expired else .hit entry) := by
  simp only [lookup, decode_encode entry sound]

theorem stillExpired_encode (now : Time.Instant) (entry : Entry) (sound : entry.Exact) :
    stillExpired now (some (encode entry)) = entry.expiredAt now := by
  simp only [stillExpired, decode_encode entry sound]

end Envelope

abbrev Shelf := String → Option Bytes

structure Served {σ α : Type} (Holds : σ → Shelf → Prop) (pending : σ → List Purge)
    (called : α × σ) (result : α) (shelf : Shelf) (purges : List Purge) : Prop where
  result : called.1 = result
  holds : Holds called.2 shelf
  pending : pending called.2 = purges

/-- A provider of envelopes whose state is, for its callers, a map of octets and a list of
purges. -/
structure Enveloped (σ : Type) where
  provider : Provider σ
  access : Purge.Access σ
  pending : σ → List Purge
  leave : List Purge → σ → σ
  /-- Every call is served, and these are the octets under each key. -/
  Holds : σ → Shelf → Prop
  left : ∀ {state shelf} purges, Holds state shelf →
    Holds (leave purges state) shelf ∧ pending (leave purges state) = purges
  store : ∀ {state shelf} key entry, Holds state shelf →
    Served Holds pending (provider.store key entry state) (.ok ())
      (Function.update shelf key (some (Envelope.encode entry))) (pending state)
  retrieve : ∀ {state shelf} now key, Holds state shelf →
    Served Holds pending (provider.retrieve now key state) (Envelope.lookup now (shelf key)) shelf
      (pending state ++ Lookup.purges key (Envelope.lookup now (shelf key)))
  delete : ∀ {state shelf} key, key ≠ "" → Holds state shelf →
    Served Holds pending (provider.delete key state) (.ok ())
      (Function.update shelf key none) (pending state)
  clear : ∀ {state shelf}, Holds state shelf →
    Served Holds pending (provider.clear state) (.ok ()) (fun _ => none) (pending state)
  read : ∀ {state shelf} key, Holds state shelf →
    Served Holds pending (access.read key state) (some (shelf key)) shelf (pending state)
  remove : ∀ key state, access.remove key state = (provider.delete key state).2

namespace Purge

def key : Purge → String
  | .reread key => key
  | .remove key => key

def effect (shelf : Shelf) : Purge → Shelf
  | .reread _ => shelf
  | .remove key => Function.update shelf key none

theorem run_eq {σ : Type} (access : Access σ) (now : Time.Instant) (purge : Purge) (state : σ) :
    run access now purge state = match (step access now purge state).1 with
      | none => (step access now purge state).2
      | some next => (step access now next (step access now purge state).2).2 := by
  rw [run]
  rcases step access now purge state with ⟨_ | next, after⟩ <;> rfl

def next (now : Time.Instant) (shelf : Shelf) : Purge → Option Purge
  | .reread key => if Envelope.stillExpired now (shelf key) then some (.remove key) else none
  | .remove _ => none

end Purge

inductive Operation where
  | store (key : String) (entry : Entry)
  | retrieve (key : String)
  | delete (key : String)
  | clear

inductive Answer where
  | done (result : Except CacheError Unit)
  | found (result : Except CacheError Lookup)

namespace Operation

def run {σ : Type} (provider : Provider σ) (now : Time.Instant) :
    Operation → σ → Answer × σ
  | .store key entry, state => (provider.store key entry state).map .done id
  | .retrieve key, state => (provider.retrieve now key state).map .found id
  | .delete key, state => (provider.delete key state).map .done id
  | .clear, state => (provider.clear state).map .done id

def Proper : Operation → Prop
  | .store key entry => key ≠ "" ∧ entry.Representable
  | .retrieve key => key ≠ ""
  | .delete key => key ≠ ""
  | .clear => True

/-- The operation names a key; an empty key would stand for all of them. -/
def Keyed : Operation → Prop
  | .store key _ => key ≠ ""
  | .retrieve key => key ≠ ""
  | .delete key => key ≠ ""
  | .clear => True

theorem Proper.keyed {operation : Operation} (proper : operation.Proper) : operation.Keyed := by
  cases operation with
  | store key entry => exact proper.1
  | _ => exact proper

def told : Operation → Operation
  | .store key entry => .store key entry.told
  | other => other

def answer (now : Time.Instant) (shelf : Shelf) : Operation → Answer
  | .retrieve key => .found (Envelope.lookup now (shelf key))
  | _ => .done (.ok ())

def effect (shelf : Shelf) : Operation → Shelf
  | .store key entry => Function.update shelf key (some (Envelope.encode entry))
  | .retrieve _ => shelf
  | .delete key => Function.update shelf key none
  | .clear => fun _ => none

def purges (now : Time.Instant) (shelf : Shelf) : Operation → List Purge
  | .retrieve key => Lookup.purges key (Envelope.lookup now (shelf key))
  | _ => []

/-- A storage runs an operation as the provider it is. -/
theorem run_storage (operation : Operation) (now : Time.Instant) (storage : Storage) :
    operation.run Storage.provider now storage =
      storage.run (operation.run Memory.provider now) (operation.run Remote.provider now)
        (operation.run Distributed.provider now) := by
  cases storage <;> cases operation <;> rfl

end Operation

theorem Served.done {σ : Type} {Holds : σ → Shelf → Prop} {pending : σ → List Purge}
    {called : Except CacheError Unit × σ} {result : Except CacheError Unit} {shelf : Shelf}
    {purges : List Purge} (served : Served Holds pending called result shelf purges) :
    Served Holds pending (called.map Answer.done id) (.done result) shelf (purges ++ []) where
  result := congrArg Answer.done served.result
  holds := served.holds
  pending := served.pending.trans (List.append_nil purges).symm

namespace Enveloped

variable {σ : Type} (view : Enveloped σ) {state : σ} {shelf : Shelf}

theorem run (holds : view.Holds state shelf) (now : Time.Instant) (operation : Operation)
    (keyed : operation.Keyed) :
    Served view.Holds view.pending (operation.run view.provider now state)
      (operation.answer now shelf) (operation.effect shelf)
      (view.pending state ++ operation.purges now shelf) := by
  cases operation with
  | store key entry => exact (view.store key entry holds).done
  | retrieve key =>
      obtain ⟨result, after, left⟩ := view.retrieve now key holds
      exact ⟨congrArg Answer.found result, after, left⟩
  | delete key => exact (view.delete key keyed holds).done
  | clear => exact (view.clear holds).done

/-- One call of a purge: what is left of the purge, and what is held then. -/
theorem purge_step (holds : view.Holds state shelf) (now : Time.Instant) (purge : Purge)
    (keyed : purge.key ≠ "") :
    Served view.Holds view.pending (purge.step view.access now state)
      (purge.next now shelf) (purge.effect shelf) (view.pending state) := by
  cases purge with
  | reread key =>
      obtain ⟨found, after, left⟩ := view.read key holds
      simp only [Purge.step, found]
      exact ⟨rfl, after, left⟩
  | remove key =>
      obtain ⟨_, after, left⟩ := view.delete key keyed holds
      simp only [Purge.step, view.remove]
      exact ⟨rfl, after, left⟩

end Enveloped

namespace Remote

def Holds (remote : Remote) (shelf : Shelf) : Prop :=
  (remote.fleet.peer remote.store).Serving ∧
    ∀ key, (remote.fleet.tableOf remote.store).get? key = shelf key

theorem send_holds {remote : Remote} {shelf : Shelf} (holds : remote.Holds shelf)
    (mutation : Cluster.Mutation) (after : Shelf)
    (effect : ∀ key, (mutation.apply (remote.fleet.tableOf remote.store)).get? key = after key) :
    let called := mutation.send none remote.fleet remote.store
    result called.1 = .ok () ∧ Holds { remote with fleet := called.2 } after := by
  obtain ⟨serving, _⟩ := holds
  rw [Cluster.Fleet.send_eq _ _ _ _ serving.inProcess, serving.hindrance]
  refine ⟨rfl, ?_, ?_⟩
  · dsimp only
    rw [Cluster.Fleet.peer_put, if_pos rfl]
    exact serving.after mutation none
  · intro key
    dsimp only
    rw [Cluster.Fleet.tableOf, Cluster.Fleet.peer_put, if_pos rfl, serving.after_table]
    exact effect key

theorem get_holds {remote : Remote} {shelf : Shelf} (holds : remote.Holds shelf) (key : String) :
    let called := remote.fleet.get none remote.store key
    result called.1 = .ok (shelf key) ∧ Holds { remote with fleet := called.2 } shelf := by
  obtain ⟨serving, held⟩ := holds
  obtain ⟨found, kept⟩ := remote.fleet.get_serving none remote.store key serving
  have stores := remote.fleet.get_keepsStores none remote.store key
  refine ⟨by rw [found, held]; rfl, kept _ serving, fun other => ?_⟩
  rw [Cluster.Fleet.tableOf, stores.table]
  exact held other

def enveloped : Enveloped Remote where
  provider := provider
  access := access
  pending := Remote.pending
  leave purges remote := { remote with pending := purges }
  Holds := Holds
  left _ holds := ⟨holds, rfl⟩
  store key entry holds := by
    obtain ⟨result, after⟩ := send_holds holds (.set key (Envelope.encode entry)) _ fun other => by
      rw [Cluster.Mutation.apply, Table.get?_insert, holds.2, ← Function.update_apply]
    exact ⟨result, after, rfl⟩
  retrieve now key holds := by
    obtain ⟨found, after⟩ := get_holds holds key
    refine ⟨?_, after, ?_⟩
    · simp only [provider, Remote.retrieve, found]
      rfl
    · simp only [provider, Remote.retrieve, found]
      rfl
  delete key keyed holds := by
    have named : key.isEmpty = false := by simpa using keyed
    obtain ⟨result, after⟩ := send_holds holds (.delete key) _ fun other => by
      rw [Cluster.Mutation.apply, Cluster.Fleet.deleteEffect, named, if_neg (by decide),
        Table.get?_erase, holds.2, ← Function.update_apply]
    exact ⟨result, after, rfl⟩
  clear holds := by
    obtain ⟨result, after⟩ := send_holds holds (.delete "") (fun _ => none) fun _ => rfl
    exact ⟨result, after, rfl⟩
  read key holds := by
    obtain ⟨found, after⟩ := get_holds holds key
    refine ⟨?_, after, rfl⟩
    simp only [access, found]
    rfl
  remove key remote := rfl

end Remote

namespace Distributed

def Holds (cluster : Distributed) (shelf : Shelf) : Prop :=
  Cluster.Serving cluster.coordinator cluster.fleet ∧
    Cluster.Holds cluster.coordinator cluster.fleet shelf

def primaries (coordinator : Cluster.Coordinator) (fleet : Cluster.Fleet) : Shelf := fun key =>
  (coordinator.registry.select key).bind fun primary => (fleet.tableOf primary.store).get? key

theorem new_holds (nodes : List Cluster.Node) (options : Cluster.Options) (fleet : Cluster.Fleet)
    (pending : List Purge) (peopled : nodes ≠ []) (healthy : ∀ node ∈ nodes, node.healthy = true)
    (serving : ∀ node ∈ nodes, (fleet.peer node.store).Serving) :
    Holds ⟨.new nodes options, fleet, pending⟩ (primaries (.new nodes options) fleet) := by
  refine ⟨Cluster.new_serving nodes options fleet peopled healthy serving, ?_⟩
  intro key primary selected
  dsimp only at selected ⊢
  rw [primaries, selected, Option.bind_some]

/-- Without nodes nothing is stored. -/
theorem put_new_nil (options : Cluster.Options) (fleet : Cluster.Fleet) (pending : List Purge)
    (key : String) (entry : Entry) :
    (put key entry ⟨.new [] options, fleet, pending⟩).1 = .error .noHealthyNode := by
  have nowhere : (Cluster.Coordinator.new [] options).registry.replicas key = [] := by
    apply List.eq_nil_iff_forall_not_mem.mpr
    intro node member
    exact List.not_mem_nil (Cluster.Registry.mem_replicas _ key node member).1
  simp only [put, Cluster.Coordinator.set, nowhere, List.isEmpty_nil, if_true]

/-- What a write of one key leaves under every key. -/
theorem content_update (shelf : Shelf) (key : String) (held : Option Bytes) (other : String) :
    (if key = other then some held else none).getD (shelf other) =
      Function.update shelf key held other := by
  rw [Function.update_apply]
  by_cases same : key = other
  · simp [same]
  · simp [same, Ne.symm same]

theorem write_holds {cluster : Distributed} {shelf : Shelf} (holds : cluster.Holds shelf)
    (write : Cluster.Write) (keyed : write ≠ .delete "") (after : Shelf)
    (effect : ∀ key, (write.content key).getD (shelf key) = after key) :
    let called := write.run cluster.coordinator cluster.fleet
    called.1 = .ok () ∧ Holds { cluster with fleet := called.2 } after := by
  obtain ⟨result, serving, held⟩ := holds.1.write holds.2 write keyed
  refine ⟨result, serving, fun key primary selected => ?_⟩
  rw [← effect key]
  exact held key primary selected

def enveloped : Enveloped Distributed where
  provider := provider
  access := access
  pending := Distributed.pending
  leave purges cluster := { cluster with pending := purges }
  Holds := Holds
  left _ holds := ⟨holds, rfl⟩
  store key entry holds := by
    obtain ⟨result, after⟩ := write_holds holds (.set key (Envelope.encode entry))
      (fun same => nomatch same) _ (content_update _ key _)
    exact ⟨result, after, rfl⟩
  retrieve now key holds := by
    obtain ⟨found, serving, held⟩ := holds.1.read holds.2 key
    refine ⟨?_, ⟨serving, held⟩, ?_⟩
    · simp only [provider, Distributed.retrieve, found]
      rfl
    · simp only [provider, Distributed.retrieve, found]
      rfl
  delete key keyed holds := by
    obtain ⟨result, after⟩ := write_holds holds (.delete key)
      (fun same => keyed (Cluster.Write.delete.inj same)) _ (content_update _ key none)
    exact ⟨result, after, rfl⟩
  clear holds := by
    obtain ⟨result, after⟩ := write_holds holds .clear (fun same => nomatch same) (fun _ => none)
      fun _ => rfl
    exact ⟨result, after, rfl⟩
  read key holds := by
    obtain ⟨found, serving, held⟩ := holds.1.read holds.2 key
    refine ⟨?_, ⟨serving, held⟩, rfl⟩
    simp only [access, found]
    rfl
  remove key cluster := rfl

end Distributed

end RingCache
