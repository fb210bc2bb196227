import RingCache.Proofs.PrimaryReads
import RingCache.Proofs.PurgeRaces

/-!
What a purge does to the copies of a key in a cluster. A read looks at the primary's copy and so does
its purge, but the deletion goes to every replica: a copy is lost or kept by its place in the
cluster, whatever it holds. Where the replicas hold what the primary holds, only expired copies are
lost.
-/

namespace RingCache

namespace Envelope

/-- A read that finds a key expired found an envelope that is expired then. -/
theorem lookup_expired {now : Time.Instant} {answer : Except CacheError (Option Bytes)}
    (found : answer >>= lookup now = .ok .expired) :
    ∃ octets entry, answer = .ok (some octets) ∧ decode octets = .ok entry ∧
      entry.expiredAt now = true := by
  cases answer with
  | error error => cases found
  | ok raw =>
      rw [ok_bind] at found
      cases raw with
      | none => cases found
      | some octets =>
          simp only [lookup] at found
          cases decoded : decode octets with
          | error fault => simp [decoded] at found
          | ok entry =>
              refine ⟨octets, entry, rfl, decoded, ?_⟩
              by_contra fresh
              simp [decoded, fresh] at found

end Envelope

namespace Distributed

open Cluster

/-- Both calls of a purge, one after the other. -/
theorem run_reread (now : Time.Instant) (key : String) (cluster : Distributed) (raw : Option Bytes)
    (read : (cluster.coordinator.get key cluster.fleet).1 = .ok raw) :
    Purge.run access now (.reread key) cluster =
      let again := { cluster with fleet := (cluster.coordinator.get key cluster.fleet).2 }
      if Envelope.stillExpired now raw then (again.delete key).2 else again := by
  rw [Purge.run_eq]
  simp only [Purge.step, access, read, Except.toOption]
  cases Envelope.stillExpired now raw <;> rfl

variable (coordinator : Coordinator) (fleet : Fleet) (key : String) (now settled : Time.Instant)

def readAndPurge (cluster : Distributed) : Except CacheError Lookup × Distributed :=
  let (found, cluster) := cluster.retrieve now key
  (found, cluster.settle settled)

/-- After a read that finds anything else, there is no purge. -/
theorem readAndPurge_other
    (other : ((coordinator.get key fleet).1 >>= Envelope.lookup now) ≠ .ok .expired) :
    (readAndPurge key now settled ⟨coordinator, fleet, []⟩).2.fleet =
      (coordinator.get key fleet).2 := by
  have idle : Lookup.purges key ((coordinator.get key fleet).1 >>= Envelope.lookup now) = [] := by
    unfold Lookup.purges
    split
    · next found => exact absurd found other
    · rfl
  simp only [readAndPurge, retrieve, settle, idle]
  rfl

/-- The purge finds what the read found, and deletes. -/
theorem readAndPurge_expired (onward : settled.before now = false)
    (found : ((coordinator.get key fleet).1 >>= Envelope.lookup now) = .ok .expired) :
    ∃ between, fleet.Alike between ∧
      (readAndPurge key now settled ⟨coordinator, fleet, []⟩).2.fleet =
        ((Write.delete key).run coordinator between).2 := by
  obtain ⟨octets, entry, answer, decoded, expired⟩ := Envelope.lookup_expired found
  have again := coordinator.get_again key fleet
  rw [answer] at again
  have still : Envelope.stillExpired settled (some octets) = true := by
    simp only [Envelope.stillExpired, decoded]
    exact Time.Instant.before_of_not_before expired onward
  have first := coordinator.get_alike key fleet
  have second := coordinator.get_alike key (coordinator.get key fleet).2
  refine ⟨_, first.trans second, ?_⟩
  have purged := run_reread settled key ⟨coordinator, (coordinator.get key fleet).2, []⟩ _ again
  rw [if_pos still] at purged
  simp only [readAndPurge, retrieve, found, Lookup.purges, settle, List.nil_append, Purge.runAll,
    List.foldl_cons, List.foldl_nil]
  rw [purged]
  rfl

/-- A read of the key finds it expired, and the store is one of those that the deletion reaches. -/
structure PurgeReaches (name : String) : Prop where
  expired : ((coordinator.get key fleet).1 >>= Envelope.lookup now) = .ok .expired
  replica : name ∈ (coordinator.registry.replicas key).map Node.store
  served : (Mutation.delete key).served coordinator.timeout (fleet.peer name) = true

/-- What is in a store after a read and its purge: the key alone may be gone, and only where the
purge reaches. -/
theorem readAndPurge_content (keyed : key ≠ "") (onward : settled.before now = false)
    (inProcess : ∀ node ∈ coordinator.registry.nodes, (fleet.peer node.store).InProcess)
    (name other : String) :
    let after := (readAndPurge key now settled ⟨coordinator, fleet, []⟩).2.fleet
    (PurgeReaches coordinator fleet key now name ∧ other = key →
        (after.tableOf name).get? other = none) ∧
      (¬ (PurgeReaches coordinator fleet key now name ∧ other = key) →
        (after.tableOf name).get? other = (fleet.tableOf name).get? other) := by
  intro after
  by_cases expired : ((coordinator.get key fleet).1 >>= Envelope.lookup now) = .ok .expired
  · obtain ⟨between, alike, deleted⟩ :=
      readAndPurge_expired coordinator fleet key now settled onward expired
    have targets : ∀ node ∈ (Write.delete key).targets coordinator.registry,
        (between.peer node.store).InProcess := fun node member =>
      alike.stores.inProcess node.store (inProcess node (Write.mem_targets _ _ node member).1)
    have content := Coordinator.callAll_content coordinator.timeout
      (Task.inTurn coordinator.timeout between) (Write.delete key).mutation
      ((Write.delete key).targets coordinator.registry) between (Task.inTurn_perm _ between)
      (fun other => (Write.delete key).content other)
      (fun table other => (Write.delete key).apply_content other table (by simpa using keyed))
      targets name other
    have served : (Write.delete key).mutation.served coordinator.timeout (between.peer name) =
        (Mutation.delete key).served coordinator.timeout (fleet.peer name) :=
      Mutation.served_congr _ _ (alike.manners name)
    have held : (between.tableOf name).get? other = (fleet.tableOf name).get? other := by
      rw [Fleet.tableOf, alike.stores.table name, Fleet.tableOf]
    rw [served, held] at content
    simp only [after]
    rw [deleted, Write.run_eq, Write.calls, content]
    constructor
    · rintro ⟨reaches, rfl⟩
      rw [if_pos ⟨reaches.replica, reaches.served⟩]
      simp [Write.content]
    · intro missed
      split
      · next reached =>
          have apart : key ≠ other := fun same =>
            missed ⟨⟨expired, reached.1, reached.2⟩, same.symm⟩
          simp [Write.content, apart]
      · rfl
  · refine ⟨fun reached => absurd reached.1.expired expired, fun _ => ?_⟩
    simp only [after]
    rw [readAndPurge_other coordinator fleet key now settled expired, Fleet.tableOf,
      (coordinator.get_alike key fleet).stores.table name, Fleet.tableOf]

/-- A value that is stored at serving nodes replaces the copies of the replicas. -/
theorem put_serving (cluster : Distributed) (key : String) (entry : Entry)
    (serving : ∀ name, (cluster.fleet.peer name).Serving)
    (placed : cluster.coordinator.registry.replicas key ≠ []) :
    let stored := put key entry cluster
    stored.1 = .ok () ∧ (∀ name, (stored.2.fleet.peer name).Serving) ∧
      ∀ name, (stored.2.fleet.tableOf name).get? key =
        if name ∈ (cluster.coordinator.registry.replicas key).map Node.store then
          some (Envelope.encode entry)
        else (cluster.fleet.tableOf name).get? key := by
  obtain ⟨coordinator, fleet, pending⟩ := cluster
  let write : Write := .set key (Envelope.encode entry)
  let order := Task.inTurn coordinator.timeout fleet
  have permutes := Task.inTurn_perm coordinator.timeout fleet
  obtain ⟨failures, kept⟩ := Coordinator.callAll_serving coordinator.timeout order write.mutation
    (write.targets coordinator.registry) fleet permutes fun node _ => serving node.store
  have content := fun name => Coordinator.callAll_content coordinator.timeout order write.mutation
    (write.targets coordinator.registry) fleet permutes (fun other => write.content other)
    (fun table other => write.apply_content other table nofun)
    (fun node _ => (serving node.store).inProcess) name key
  have replicated : write.unplaced coordinator.registry = false := by
    simpa [write, Write.unplaced] using placed
  have acknowledged : (write.calls order coordinator fleet).1 = [] := failures
  have written : coordinator.set key (Envelope.encode entry) fleet =
      (.ok (), (write.calls order coordinator fleet).2) := by
    change write.run coordinator fleet = _
    rw [Write.run_eq_runIn, Write.runIn_eq order permutes, replicated, acknowledged]
    rfl
  have ran : put key entry ⟨coordinator, fleet, pending⟩ =
      (.ok (), ⟨coordinator, (write.calls order coordinator fleet).2, pending⟩) := by
    simp only [put, written]
  rw [ran]
  refine ⟨rfl, fun name => kept name (serving name), fun name => ?_⟩
  rw [Write.calls, content name, (serving name).served write.mutation coordinator.timeout]
  simp [write, Write.content, Write.targets]

def HoldsFresh (name : String) (octets : Bytes) : Prop :=
  (fleet.tableOf name).get? key = some octets ∧
    ∃ entry, Envelope.decode octets = .ok entry ∧ entry.expiredAt now = false

/-- After a read and its purge, a copy that is not expired is still there exactly if the purge does not
reach its store. The purge reaches the replicas once the primary's copy is expired, so where all of
them hold what the primary holds, no such copy is lost. Other keys are left alone. -/
theorem purge_spares_iff (coordinator : Coordinator) (fleet : Fleet) (key : String)
    (keyed : key ≠ "") (now settled : Time.Instant) (onward : settled.before now = false)
    (inProcess : ∀ node ∈ coordinator.registry.nodes, (fleet.peer node.store).InProcess) :
    let after := (readAndPurge key now settled ⟨coordinator, fleet, []⟩).2.fleet
    (∀ node ∈ coordinator.registry.nodes, ∀ octets,
        HoldsFresh fleet key settled node.store octets →
          ((after.tableOf node.store).get? key = some octets ↔
            ¬ PurgeReaches coordinator fleet key now node.store)) ∧
      ((∀ primary, coordinator.registry.select key = some primary →
          ∀ node ∈ coordinator.registry.replicas key,
            (fleet.tableOf node.store).get? key = (fleet.tableOf primary.store).get? key) →
        ∀ name octets, HoldsFresh fleet key settled name octets →
          (after.tableOf name).get? key = some octets) ∧
      ∀ name other, other ≠ key →
        (after.tableOf name).get? other = (fleet.tableOf name).get? other := by
  intro after
  have content := readAndPurge_content coordinator fleet key now settled keyed onward inProcess
  refine ⟨fun node _ octets fresh => ⟨fun kept reaches => ?_, fun missed => ?_⟩, ?_, ?_⟩
  · rw [(content node.store key).1 ⟨reaches, rfl⟩] at kept
    contradiction
  · exact ((content node.store key).2 fun reached => missed reached.1).trans fresh.1
  · intro agree name octets ⟨held, entry, decoded, unexpired⟩
    refine ((content name key).2 fun ⟨reaches, _⟩ => ?_).trans held
    obtain ⟨stale, old, answer, decodedOld, past⟩ := Envelope.lookup_expired reaches.expired
    obtain ⟨primary, selected, found⟩ := coordinator.get_primary key fleet inProcess _ answer
    obtain ⟨node, replica, rfl⟩ := List.mem_map.mp reaches.replica
    -- The copy is the primary's, and what was expired at the read is expired later.
    rw [agree primary selected node replica, ← found, Option.some.injEq] at held
    have same : old = entry := Except.ok.inj ((held ▸ decodedOld).symm.trans decoded)
    have still := Time.Instant.before_of_not_before past onward
    rw [same] at still
    exact absurd (still.symm.trans unexpired) (by decide)
  · exact fun name other apart => (content name other).2 fun reached => apart reached.2

-- A write that the primary misses, and the purge of what the primary still holds.
open Deployment

-- The primary of the key misses a second write, which the other node acknowledges.
def rejoined : Except CacheError Unit × Distributed :=
  let first := (put "k" stale ⟨.new twoNodes fewPoints, .empty, []⟩).2
  let (written, second) :=
    put "k" renewed { first with coordinator := first.coordinator.mark ⟨"b"⟩ false }
  (written, { second with coordinator := second.coordinator.mark ⟨"b"⟩ true })

theorem rejoined_eq : rejoined.1 = .ok () ∧
    rejoined.2.coordinator = .new twoNodes fewPoints ∧ rejoined.2.pending = [] ∧
    (∀ name, (rejoined.2.fleet.peer name).Serving) ∧
    (rejoined.2.fleet.tableOf "a").get? "k" = some (Envelope.encode renewed) ∧
    (rejoined.2.fleet.tableOf "b").get? "k" = some (Envelope.encode stale) := by
  have serving : ∀ name, (Fleet.empty.peer name).Serving := Peer.fresh_serving
  have both : ((Coordinator.new twoNodes fewPoints).registry.replicas "k").map Node.store =
      ["b", "a"] := by
    rw [new_twoNodes]
    decide +kernel
  have one : (((Coordinator.new twoNodes fewPoints).mark ⟨"b"⟩ false).registry.replicas "k").map
      Node.store = ["a"] := by
    rw [new_twoNodes]
    decide +kernel
  obtain ⟨_, still, first⟩ := put_serving ⟨.new twoNodes fewPoints, .empty, []⟩ "k" stale serving
    fun same => by rw [same] at both; cases both
  obtain ⟨written, later, second⟩ := put_serving
    ⟨(Coordinator.new twoNodes fewPoints).mark ⟨"b"⟩ false, _, []⟩ "k" renewed still
    fun same => by rw [same] at one; cases one
  dsimp only at first second
  rw [both] at first
  rw [one] at second
  refine ⟨written, ?_, rfl, later, ?_, ?_⟩
  · have marked : ((Coordinator.new twoNodes fewPoints).mark ⟨"b"⟩ false).mark ⟨"b"⟩ true =
        .new twoNodes fewPoints := by
      rw [new_twoNodes]
      decide +kernel
    exact marked
  · exact (second "a").trans (if_pos (by decide))
  · exact (second "b").trans ((if_neg (by decide)).trans ((first "b").trans (if_pos (by decide))))

theorem stale_primary (fleet : Fleet) (serving : (fleet.peer "b").Serving)
    (old : (fleet.tableOf "b").get? "k" = some (Envelope.encode stale)) :
    (((Coordinator.new twoNodes fewPoints).get "k" fleet).1 >>= Envelope.lookup ⟨8, 0⟩) =
      .ok .expired := by
  have primary : ∃ node, (Coordinator.new twoNodes fewPoints).registry.select "k" = some node ∧
      node.store = "b" ∧ node.healthy = true := by
    rw [new_twoNodes]
    decide +kernel
  obtain ⟨node, selected, store, healthy⟩ := primary
  have read := (fleet.get_serving (some (Coordinator.new twoNodes fewPoints).timeout) "b" "k"
    serving).1
  rw [old] at read
  simp only [Coordinator.get, selected, healthy, if_true, store, read, Outcome.result]
  exact Envelope.lookup_encode ⟨8, 0⟩ stale ⟨by decide, by decide, by decide⟩

-- The other node refuses deletions.
def refusing : Fleet :=
  rejoined.2.fleet.setManner "a" fun manner => { manner with delete := .fails .noHealthyNode }

theorem purge_spares_iff_refused :
    (((Coordinator.new twoNodes fewPoints).get "k" refusing).1 >>= Envelope.lookup ⟨8, 0⟩) =
        .ok .expired ∧
      HoldsFresh refusing "k" ⟨8, 0⟩ "a" (Envelope.encode renewed) ∧
      ((readAndPurge "k" ⟨8, 0⟩ ⟨8, 0⟩ ⟨.new twoNodes fewPoints, refusing, []⟩).2.fleet.tableOf
        "a").get? "k" = some (Envelope.encode renewed) := by
  obtain ⟨_, _, _, serving, held, old⟩ := rejoined_eq
  have stores := rejoined.2.fleet.setManner_keepsStores "a" fun manner =>
    { manner with delete := .fails .noHealthyNode }
  have other : refusing.peer "b" = rejoined.2.fleet.peer "b" := by
    rw [refusing, Fleet.setManner, Fleet.peer_put, if_neg (by decide)]
  have fresh : HoldsFresh refusing "k" ⟨8, 0⟩ "a" (Envelope.encode renewed) := by
    refine ⟨?_, renewed, Envelope.decode_encode renewed ⟨by decide, by decide, by decide⟩, rfl⟩
    rw [← held, Fleet.tableOf, refusing, stores.table "a", Fleet.tableOf]
  have expired := stale_primary refusing (other ▸ serving "b") (by rw [Fleet.tableOf, other]; exact old)
  refine ⟨expired, fresh, ?_⟩
  have spared := (purge_spares_iff (.new twoNodes fewPoints) refusing "k" (by decide) ⟨8, 0⟩ ⟨8, 0⟩
    rfl fun node _ => stores.inProcess node.store (serving node.store).inProcess).1
    (.fresh ⟨"a"⟩ "test://a" "a") (by decide) _ fresh
  refine spared.mpr fun reaches => ?_
  have hindered := reaches.served
  rw [refusing, Fleet.setManner, Node.fresh, Fleet.peer_put, if_pos rfl] at hindered
  simp [Mutation.served, Mutation.hindrance, Mutation.conduct, Conduct.hindrance] at hindered

/-- The purge takes the only copy of a value that was acknowledged and is not expired. -/
theorem fresh_replica_lost :
    rejoined.1 = .ok () ∧ rejoined.2.pending = [] ∧
      HoldsFresh rejoined.2.fleet "k" ⟨8, 0⟩ "a" (Envelope.encode renewed) ∧
      ((readAndPurge "k" ⟨8, 0⟩ ⟨8, 0⟩ rejoined.2).2.fleet.tableOf "a").get? "k" = none := by
  obtain ⟨written, coordinator, pending, serving, held, old⟩ := rejoined_eq
  have sound : renewed.Exact := ⟨by decide, by decide, by decide⟩
  refine ⟨written, pending, ⟨held, renewed, Envelope.decode_encode renewed sound, rfl⟩, ?_⟩
  have whole : rejoined.2 = ⟨.new twoNodes fewPoints, rejoined.2.fleet, []⟩ := by
    rw [← coordinator, ← pending]
  have reaches : PurgeReaches (.new twoNodes fewPoints) rejoined.2.fleet "k" ⟨8, 0⟩ "a" := by
    refine ⟨stale_primary _ (serving "b") old, ?_, ?_⟩
    · rw [new_twoNodes]
      decide +kernel
    · exact (serving "a").served _ _
  rw [whole]
  exact (readAndPurge_content _ rejoined.2.fleet "k" _ _ (by decide) rfl
    (fun node _ => (serving node.store).inProcess) "a" "k").1 ⟨reaches, rfl⟩

end Distributed

end RingCache
