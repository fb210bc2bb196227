import RingCache.Proofs.Compression
import RingCache.Proofs.MemoryPurges
import RingCache.Proofs.Requests

/-!
Values that were written are read again. Whether a value is compressed is settled when it is written
and recorded beside it, so an entry is opened in the same way whatever the policy and wherever it was
kept; and nothing but a write, a deletion or a clearing takes an entry away before it expires.
-/

namespace RingCache

theorem Entry.content_entryOf (policy : Policy) (now : Time.Instant) (lifetime : Time.Span)
    (contentType : ContentType) (encoded : Bytes) :
    (policy.entryOf now lifetime contentType encoded).content policy.codec = .ok encoded := by
  simp only [Entry.content, Policy.entryOf]
  split
  · rw [policy.codec.lossless]
  · rfl

theorem CacheValue.ofEntry_entryOf (policy : Policy) (now : Time.Instant) (lifetime : Time.Span)
    (contentType : ContentType) (encoded : Bytes) :
    CacheValue.ofEntry policy.codec (policy.entryOf now lifetime contentType encoded) =
      CacheValue.decode contentType encoded := by
  rw [CacheValue.ofEntry, Entry.content_entryOf]
  rfl

theorem Policy.entryOf_exact (policy : Policy) {now : Time.Instant} (lifetime : Time.Span)
    (contentType : ContentType) (encoded : Bytes) (sound : now.Exact)
    (small : (policy.entryOf now lifetime contentType encoded).payload.length < 2 ^ 64) :
    (policy.entryOf now lifetime contentType encoded).Exact where
  payload := small
  created := sound
  expires := sound.laterOrLatest lifetime

namespace Memory

def Safe (key : String) (entry : Entry) (memory : Memory) : Prop :=
  memory.entries.Distinct ∧ memory.entries.get? key = some entry

/-- What is fresh is there after an event, unless the event itself takes it away. -/
theorem Safe.after {key : String} {entry : Entry} {memory : Memory} (safe : memory.Safe key entry)
    (now : Time.Instant) (fresh : entry.expiredAt now = false) (event : Event)
    (spared : (keep event memory.entries).get? key = some entry) :
    (memory.after now event).Safe key entry := by
  -- The memory shadows its own table, and a shadow lacks expired entries only.
  have shadows : Shadows now memory memory.entries := ⟨safe.1, fun _ => .inl rfl⟩
  refine ⟨(shadows.after event).distinct, ?_⟩
  rcases (shadows.after event).covers key with same | ⟨_, other, held, expired⟩
  · exact same.trans spared
  · rw [Option.some.inj (held.symm.trans spared), fresh] at expired
    contradiction

theorem Safe.run {key : String} {entry : Entry} {memory : Memory} (safe : memory.Safe key entry)
    (now : Time.Instant) (fresh : entry.expiredAt now = false) (operation : Operation)
    (spares : (Turn.client operation).Spares key) :
    Safe key entry (operation.run provider now memory).2 := by
  cases operation with
  | store other stored =>
      refine safe.after now fresh (.store other stored) ?_
      rw [keep, Table.get?_insert, if_neg (Ne.symm spares), safe.2]
  | retrieve other => exact safe.after now fresh (.retrieve other) safe.2
  | delete other =>
      refine safe.after now fresh (.delete other) ?_
      rw [keep, Table.get?_erase, if_neg (Ne.symm spares), safe.2]
  | clear => exact absurd spares id

end Memory

namespace Storage

open Cluster

/-- A storage in which no purge is left, whatever it holds: in process, at one node, or in a cluster
of healthy nodes, over stores that serve every call. -/
inductive Ready : Storage → Prop where
  | memory (entries : Table Entry) (distinct : entries.Distinct) : Ready (.memory ⟨entries, []⟩)
  | remote (name : String) (fleet : Fleet) (serving : (fleet.peer name).Serving) :
      Ready (.remote ⟨name, fleet, []⟩)
  | distributed (nodes : List Node) (options : Options) (fleet : Fleet)
      (healthy : ∀ node ∈ nodes, node.healthy = true)
      (serving : ∀ node ∈ nodes, (fleet.peer node.store).Serving) :
      Ready (.distributed ⟨.new nodes options, fleet, []⟩)

def purge (now : Time.Instant) (place : Nat) : Storage → Storage
  | .memory state => .memory (state.runPurge now place)
  | .remote state => .remote (Remote.enveloped.turn now (.purge place) state)
  | .distributed state => .distributed (Distributed.enveloped.turn now (.purge place) state)

def sweep (now : Time.Instant) : Storage → Storage
  | .memory state => .memory (state.sweep now)
  | other => other

/-- The storage holds an entry under a key, and no purge is left with the removal of that key. -/
def Safe (key : String) (entry : Entry) : Storage → Prop
  | .memory state => state.Safe key entry
  | .remote state => ∃ shelf, Remote.enveloped.Safe key entry state shelf
  | .distributed state => ∃ shelf, Distributed.enveloped.Safe key entry state shelf

theorem Ready.stored {storage : Storage} (ready : storage.Ready) (key : String) (entry : Entry)
    (done : (provider.store key entry storage).1 = .ok ()) :
    Safe key entry (provider.store key entry storage).2 := by
  cases ready with
  | memory entries distinct =>
      refine ⟨Table.insert_distinct distinct key entry, ?_⟩
      exact (Table.get?_insert entries key key entry).trans (if_pos rfl)
  | remote name fleet serving =>
      have holds : Remote.enveloped.Holds ⟨name, fleet, []⟩ (fleet.tableOf name).get? :=
        ⟨serving, fun _ => rfl⟩
      exact ⟨_, Enveloped.store_safe entry holds nofun nofun⟩
  | distributed nodes options fleet healthy serving =>
      by_cases empty : nodes = []
      · subst empty
        have refused := Distributed.put_new_nil options fleet [] key entry
        exact absurd (refused.symm.trans done) nofun
      · have holds := Distributed.new_holds nodes options fleet [] empty healthy serving
        exact ⟨_, Enveloped.store_safe entry holds nofun nofun⟩

variable {key : String} {entry : Entry} {storage : Storage}

theorem Safe.run (safe : storage.Safe key entry) (now : Time.Instant)
    (fresh : entry.expiredAt now = false) (operation : Operation) (keyed : operation.Keyed)
    (spares : (Turn.client operation).Spares key) :
    Safe key entry (operation.run provider now storage).2 := by
  rw [Operation.run_storage]
  cases storage with
  | memory state =>
      exact Memory.Safe.run safe now fresh operation spares
  | remote state =>
      obtain ⟨shelf, safe⟩ := safe
      exact ⟨_, safe.client now operation keyed spares⟩
  | distributed state =>
      obtain ⟨shelf, safe⟩ := safe
      exact ⟨_, safe.client now operation keyed spares⟩

theorem Safe.purge (safe : storage.Safe key entry) (sound : entry.Exact)
    (now : Time.Instant) (fresh : entry.expiredAt now = false) (place : Nat) :
    Safe key entry (storage.purge now place) := by
  cases storage with
  | memory state => exact Memory.Safe.after safe now fresh (.purge place) safe.2
  | remote state =>
      obtain ⟨shelf, safe⟩ := safe
      exact safe.purge sound now place fresh
  | distributed state =>
      obtain ⟨shelf, safe⟩ := safe
      exact safe.purge sound now place fresh

theorem Safe.sweep (safe : storage.Safe key entry) (now : Time.Instant)
    (fresh : entry.expiredAt now = false) : Safe key entry (storage.sweep now) := by
  cases storage with
  | memory state => exact Memory.Safe.after safe now fresh .sweep safe.2
  | remote state => exact safe
  | distributed state => exact safe

theorem Safe.retrieved (safe : storage.Safe key entry) (sound : entry.Exact)
    (now : Time.Instant) : (provider.retrieve now key storage).1 =
      .ok (if entry.expiredAt now then .expired else .hit entry) := by
  cases storage with
  | memory state =>
      have found : (state.retrieve now key).1 =
          if entry.expiredAt now then .expired else .hit entry := by
        rw [Memory.retrieve_found, safe.2]
      exact congrArg Except.ok found
  | remote state =>
      obtain ⟨shelf, safe⟩ := safe
      exact safe.retrieved sound now
  | distributed state =>
      obtain ⟨shelf, safe⟩ := safe
      exact safe.retrieved sound now

theorem Safe.found (safe : storage.Safe key entry) (sound : entry.Exact)
    (now : Time.Instant) (fresh : entry.expiredAt now = false) :
    (provider.retrieve now key storage).1 = .ok (.hit entry) := by
  rw [safe.retrieved sound now, fresh]
  rfl

end Storage

namespace Cache

inductive Event where
  | request (request : Request)
  | purge (place : Nat)
  | sweep

namespace Event

def after (now : Time.Instant) : Event → Cache Storage → Cache Storage
  | .request call, cache => call.after Storage.provider now cache
  | .purge place, cache => { cache with storage := cache.storage.purge now place }
  | .sweep, cache => { cache with storage := cache.storage.sweep now }

def Spares (key : String) : Event → Prop
  | .request call => call.Spares key
  | _ => True

end Event

abbrev Course := List (Time.Instant × Event)

def play (course : Course) (cache : Cache Storage) : Cache Storage :=
  course.foldl (fun cache (now, event) => event.after now cache) cache

variable {key : String} {entry : Entry} {cache : Cache Storage}

theorem Event.after_safe (safe : cache.storage.Safe key entry) (sound : entry.Exact)
    (now : Time.Instant) (fresh : entry.expiredAt now = false) (event : Event)
    (spares : event.Spares key) : (event.after now cache).storage.Safe key entry := by
  cases event with
  | request call =>
      rw [Event.after, call.after_storage Storage.provider now cache]
      cases asked : call.operation cache.policy now with
      | none => exact safe
      | some operation =>
          obtain ⟨keyed, others⟩ := Request.operation_spares now _ call operation asked
          exact safe.run now fresh operation keyed (others key spares)
  | purge place => exact safe.purge sound now fresh place
  | sweep => exact safe.sweep now fresh

/-- The invariant of a course in which the entry is fresh. -/
theorem play_safe (course : Course) (safe : cache.storage.Safe key entry)
    (sound : entry.Exact)
    (each : ∀ turn ∈ course, turn.2.Spares key ∧ entry.expiredAt turn.1 = false) :
    (play course cache).storage.Safe key entry := by
  induction course generalizing cache with
  | nil => exact safe
  | cons turn rest ih =>
      rw [List.forall_mem_cons] at each
      obtain ⟨⟨spares, fresh⟩, later⟩ := each
      exact ih (Event.after_safe safe sound turn.1 fresh turn.2 spares) later

theorem setFor_policy (now : Time.Instant) (cache : Cache Storage) (lifetime : Time.Span)
    (value : CacheValue) :
    (cache.setFor Storage.provider now lifetime key value).2.policy = cache.policy :=
  (Request.setFor lifetime key value).after_policy Storage.provider now cache

theorem play_policy (course : Course) (cache : Cache Storage) :
    (play course cache).policy = cache.policy := by
  induction course generalizing cache with
  | nil => rfl
  | cons turn rest ih =>
      obtain ⟨now, event⟩ := turn
      refine (ih _).trans ?_
      cases event with
      | request call => exact call.after_policy Storage.provider now cache
      | purge place => rfl
      | sweep => rfl

theorem get_hit {σ : Type} (provider : Provider σ) (now : Time.Instant) (cache : Cache σ)
    (valid : validateKey key = .ok ())
    (found : (provider.retrieve now key cache.storage).1 = .ok (.hit entry)) :
    (cache.get provider now key).1 = (CacheValue.ofEntry cache.policy.codec entry).map some := by
  simp only [Cache.get, valid, found, account]
  cases CacheValue.ofEntry cache.policy.codec entry <;> rfl

theorem get_expired {σ : Type} (provider : Provider σ) (now : Time.Instant) (cache : Cache σ)
    (valid : validateKey key = .ok ())
    (found : (provider.retrieve now key cache.storage).1 = .ok .expired) :
    (cache.get provider now key).1 = .ok none := by
  simp only [Cache.get, valid, found, account]

/-- A write that is done has stored its entry. -/
theorem setFor_done {σ : Type} (provider : Provider σ) (now : Time.Instant) (cache : Cache σ)
    (lifetime : Time.Span) (value : CacheValue)
    (done : (cache.setFor provider now lifetime key value).1 = .ok ()) :
    validateKey key = .ok () ∧
      let entry := cache.policy.entryOf now lifetime value.contentType value.encode
      (provider.store key entry cache.storage).1 = .ok () ∧
        (cache.setFor provider now lifetime key value).2.storage =
          (provider.store key entry cache.storage).2 := by
  cases valid : validateKey key with
  | error error => simp [Cache.setFor, valid] at done
  | ok =>
      cases fits : cache.policy.checkSize value.encode.length with
      | error error => simp [Cache.setFor, valid, fits] at done
      | ok =>
          refine ⟨rfl, ?_, ?_⟩
          · simp only [Cache.setFor, valid, fits] at done
            split at done
            · contradiction
            · assumption
          · rw [Request.setFor_storage, Request.writing, Request.ifValid, valid, fits]
            rfl

/-- Once a value is written, issued when no purge was left, its key is read as the octets of the value
decode, up to the last instant of its lifetime and after any course of calls, purges and sweeps in which
no call wrote or removed the key. -/
theorem written_reads_back (cache : Cache Storage) (ready : cache.storage.Ready)
    (now : Time.Instant) (sound : now.Exact) (lifetime : Time.Span) (value : CacheValue)
    (small : (cache.policy.entryOf now lifetime value.contentType value.encode).payload.length <
      2 ^ 64)
    (written : (cache.setFor Storage.provider now lifetime key value).1 = .ok ())
    (course : Course) (later : Time.Instant)
    (each : ∀ turn ∈ course, turn.2.Spares key ∧ later.before turn.1 = false)
    (alive : (now.laterOrLatest lifetime).before later = false) :
    ((play course (cache.setFor Storage.provider now lifetime key value).2).get
        Storage.provider later key).1 =
      (CacheValue.decode value.contentType value.encode).map some := by
  obtain ⟨valid, stored, storage⟩ := setFor_done Storage.provider now cache lifetime value written
  have whole := cache.policy.entryOf_exact lifetime value.contentType value.encode sound small
  have opened := CacheValue.ofEntry_entryOf cache.policy now lifetime value.contentType value.encode
  have fresh : (cache.policy.entryOf now lifetime value.contentType value.encode).expiredAt later =
      false := alive
  have policy : (play course
      (cache.setFor Storage.provider now lifetime key value).2).policy = cache.policy :=
    (play_policy course _).trans (setFor_policy now cache lifetime value)
  -- How the entry was made plays no part from here on.
  generalize cache.policy.entryOf now lifetime value.contentType value.encode = entry at *
  have safe := ready.stored key entry stored
  rw [← storage] at safe
  have kept := play_safe course safe whole fun turn member => by
    obtain ⟨spares, onward⟩ := each turn member
    refine ⟨spares, ?_⟩
    cases expired : entry.expiredAt turn.1 with
    | false => rfl
    | true => exact (Time.Instant.before_of_not_before expired onward).symm.trans fresh
  rw [get_hit Storage.provider later _ valid (kept.found whole later fresh), policy, opened]

-- An octet that is kept compressed at one node.
def compressing : Policy := ⟨.ofSeconds 60, 0, true, 0, Gzip.codec⟩

def lapsing : Course :=
  [(⟨2, 0⟩, .request (.setFor .zero "other" (.binary [8]))), (⟨3, 0⟩, .request (.get "other")),
    (⟨3, 0⟩, .request (.get "k")), (⟨4, 0⟩, .purge 0), (⟨5, 0⟩, .sweep), (⟨5, 0⟩, .purge 0)]

theorem written_reads_back_compressed :
    let cache : Cache Storage := .fresh ⟨0, 0⟩ compressing (.remote ⟨"r", .empty, []⟩)
    let written := cache.setFor Storage.provider ⟨1, 0⟩ (.ofSeconds 5) "k" (.binary [7])
    written.1 = .ok () ∧
      ((play lapsing written.2).get Storage.provider ⟨6, 0⟩ "k").1 = .ok (some (.binary [7])) := by
  intro cache written
  have ready : cache.storage.Ready := .remote "r" .empty (Cluster.Peer.fresh_serving "r")
  have small : (Gzip.compress [7]).length < 2 ^ 64 := by
    have tokens : Deflate.tokens [7] = [.literal 7] := by
      simp [Deflate.tokens, Deflate.tokensFrom, Deflate.copyAt]
    simp only [Gzip.compress, Deflate.compress, tokens]
    decide
  have done : written.1 = .ok () := rfl
  refine ⟨done, ?_⟩
  exact written_reads_back cache ready ⟨1, 0⟩ (by decide) (.ofSeconds 5) (.binary [7]) small done
    lapsing ⟨6, 0⟩ (by simp [lapsing, Event.Spares, Request.Spares, Time.Instant.before]) rfl

end Cache

end RingCache
