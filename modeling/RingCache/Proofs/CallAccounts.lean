import Mathlib.Algebra.GroupWithZero.Nat
import RingCache.Proofs.Requests

/-!
The counters account for every call. Whatever the calls are, whatever the provider answers, and
whatever happens to its state between them, the counters of a cache are what the record of its calls
says: how many reads found a value and how many did not, how many of these met an expired entry, how
many octets were written since the last clearing, and when the last change was.
-/

namespace RingCache.Cache

inductive Record where
  /-- A read, with what the provider found if it was asked. -/
  | read (key : String) (found : Option (Except CacheError Lookup))
      (answer : Except CacheError (Option CacheValue))
  | write (now : Time.Instant) (octets : Nat) (answer : Except CacheError Unit)
  | deletion (now : Time.Instant) (answer : Except CacheError Unit)
  | clearing (now : Time.Instant) (answer : Except CacheError Unit)

namespace Record

def isHit : Record → Bool
  | .read _ _ (.ok (some _)) => true
  | _ => false

def isValid : Record → Bool
  | .read key _ _ => (validateKey key).isOk
  | _ => false

def isMiss (record : Record) : Bool := record.isValid && !record.isHit

def isEviction : Record → Bool
  | .read _ (some (.ok .expired)) _ => true
  | _ => false

def isCleared : Record → Bool
  | .clearing _ (.ok ()) => true
  | _ => false

def octets : Record → Nat
  | .write _ octets (.ok ()) => octets
  | _ => 0

def changed : Record → Option Time.Instant
  | .write now _ (.ok ()) => some now
  | .deletion now (.ok ()) => some now
  | .clearing now (.ok ()) => some now
  | _ => none

end Record

/-- The counters that a record of calls accounts for, the latest call first. -/
def accounts (start : Time.Instant) (log : List Record) : Metrics where
  hits := .ofNat (log.countP Record.isHit)
  misses := .ofNat (log.countP Record.isMiss)
  evictions := .ofNat (log.countP Record.isEviction)
  size := .ofNat ((log.takeWhile (!·.isCleared)).map Record.octets).sum
  updated := ((log.findSome? Record.changed).getD start).wholeMillis

section

variable {σ : Type} (provider : Provider σ) (now : Time.Instant)

def found (key : String) (cache : Cache σ) : Option (Except CacheError Lookup) :=
  match validateKey key with
  | .ok () => some (provider.retrieve now key cache.storage).1
  | .error _ => none

def Request.record : Request → Cache σ → Record
  | .get key, cache => .read key (found provider now key cache) (cache.get provider now key).1
  | .getAs _ key, cache => .read key (found provider now key cache) (cache.get provider now key).1
  | .set key value, cache =>
      .write now value.encode.length (cache.set provider now key value).1
  | .setFor lifetime key value, cache =>
      .write now value.encode.length (cache.setFor provider now lifetime key value).1
  | .setKeyed key members, cache =>
      .write now ((CacheValue.ofKeyed members).toOption.elim 0 (·.encode.length))
        (cache.setKeyed provider now key members).1
  | .delete key, cache => .deletion now (cache.delete provider now key).1
  | .clear, cache => .clearing now (cache.clear provider now).1

end

structure Call (σ : Type) where
  now : Time.Instant
  drift : σ → σ
  request : Request

section

variable {σ : Type} (provider : Provider σ)

def serve (state : Cache σ × List Record) (call : Call σ) : Cache σ × List Record :=
  let cache := { state.1 with storage := call.drift state.1.storage }
  (call.request.after provider call.now cache,
    call.request.record provider call.now cache :: state.2)

def served (start : Time.Instant) (policy : Policy) (storage : σ) (calls : List (Call σ)) :
    Cache σ × List Record :=
  calls.foldl (serve provider) (.fresh start policy storage, [])

end

variable {σ : Type} (provider : Provider σ) (now start : Time.Instant) (cache : Cache σ)
  (log : List Record)

theorem accounts_nil : accounts start [] = .fresh start := by
  simp [accounts, Metrics.fresh]

/-- The next read adds at most one to each of its counters, and nothing to what was written. -/
theorem accounts_read (key : String) (found : Option (Except CacheError Lookup))
    (answer : Except CacheError (Option CacheValue)) :
    accounts start (.read key found answer :: log) =
      { accounts start log with
        hits := (accounts start log).hits + if (Record.read key found answer).isHit then 1 else 0
        misses :=
          (accounts start log).misses + if (Record.read key found answer).isMiss then 1 else 0
        evictions := (accounts start log).evictions +
          if (Record.read key found answer).isEviction then 1 else 0 } := by
  have added (p : Record → Bool) (record : Record) : UInt64.ofNat ((record :: log).countP p) =
      UInt64.ofNat (log.countP p) + if p record then 1 else 0 := by
    rw [List.countP_cons, UInt64.ofNat_add]
    split <;> rfl
  simp [accounts, added, Record.isCleared, Record.octets, List.findSome?, Record.changed]

/-- Every way a read can end counts what its record says. -/
theorem get_accounted (key : String) (kept : cache.metrics = accounts start log) :
    (cache.get provider now key).2.metrics = accounts start
      (.read key (found provider now key cache) (cache.get provider now key).1 :: log) := by
  rw [accounts_read, ← kept]
  cases valid : validateKey key with
  | error error =>
      simp [Cache.get, found, valid, Record.isHit, Record.isMiss, Record.isValid,
        Record.isEviction, Except.isOk, Except.toBool]
  | ok =>
      simp only [Cache.get, found, valid]
      generalize (provider.retrieve now key cache.storage).1 = found
      have counted :
          Record.isValid (.read key (some found) (account cache.policy.codec found cache.metrics).1) =
            true := by
        rw [Record.isValid, valid]
        rfl
      rw [Record.isMiss, counted]
      -- The exits of a read that asks the provider, one by one.
      cases found with
      | error error => simp [account, Record.isHit, Record.isEviction, Metrics.miss]
      | ok lookup =>
          cases lookup with
          | miss => simp [account, Record.isHit, Record.isEviction, Metrics.miss]
          | expired => simp [account, Record.isHit, Record.isEviction, Metrics.miss, Metrics.evict]
          | hit entry =>
              cases opened : CacheValue.ofEntry cache.policy.codec entry with
              | error error =>
                  simp [account, opened, Record.isHit, Record.isEviction, Metrics.miss]
              | ok value => simp [account, opened, Record.isHit, Record.isEviction, Metrics.hit]

/-- What has not been done adds nothing to any counter. -/
theorem accounts_failed (error : CacheError) (octets : Nat) :
    accounts start (.write now octets (.error error) :: log) = accounts start log ∧
      accounts start (.deletion now (.error error) :: log) = accounts start log ∧
      accounts start (.clearing now (.error error) :: log) = accounts start log := by
  simp [accounts, Record.isHit, Record.isMiss, Record.isValid, Record.isEviction, Record.isCleared,
    Record.octets, List.findSome?, Record.changed]

theorem accounts_done (octets : Nat) :
    accounts start (.write now octets (.ok ()) :: log) =
        (accounts start log).wrote now (.ofNat octets) ∧
      accounts start (.deletion now (.ok ()) :: log) = (accounts start log).touch now ∧
      accounts start (.clearing now (.ok ()) :: log) = (accounts start log).resetSize now := by
  simp [accounts, Metrics.wrote, Metrics.touch, Metrics.resetSize, Record.isHit, Record.isMiss,
    Record.isValid, Record.isEviction, Record.isCleared, Record.octets, List.findSome?,
    Record.changed, UInt64.ofNat_add, UInt64.add_comm]

theorem setFor_accounted (lifetime : Time.Span) (key : String) (value : CacheValue)
    (kept : cache.metrics = accounts start log) :
    (cache.setFor provider now lifetime key value).2.metrics = accounts start
      (.write now value.encode.length (cache.setFor provider now lifetime key value).1 :: log) := by
  have failed (error : CacheError) := (accounts_failed now start log error value.encode.length).1
  have done := (accounts_done now start log value.encode.length).1
  cases valid : validateKey key with
  | error error => simp only [Cache.setFor, valid, failed, kept]
  | ok =>
      cases fits : cache.policy.checkSize value.encode.length with
      | error error => simp only [Cache.setFor, valid, fits, failed, kept]
      | ok =>
          simp only [Cache.setFor, valid, fits]
          split
          · rw [failed, kept]
          · rw [done, kept]

theorem setKeyed_accounted (key : String) (members : List (Json × Json))
    (kept : cache.metrics = accounts start log) :
    ((Request.setKeyed key members).after provider now cache).metrics =
      accounts start ((Request.setKeyed key members).record provider now cache :: log) := by
  cases made : CacheValue.ofKeyed members with
  | error error =>
      have failed := (accounts_failed now start log error 0).1
      simp only [Request.after, Request.record, Cache.setKeyed, made, Except.toOption, Option.elim,
        failed, kept]
  | ok value =>
      simp only [Request.after, Request.record, Cache.setKeyed, made, Except.toOption, Option.elim]
      exact setFor_accounted provider now start cache log _ key value kept

theorem delete_accounted (key : String) (kept : cache.metrics = accounts start log) :
    (cache.delete provider now key).2.metrics = accounts start
      (.deletion now (cache.delete provider now key).1 :: log) := by
  have failed (error : CacheError) := (accounts_failed now start log error 0).2.1
  have done := (accounts_done now start log 0).2.1
  cases valid : validateKey key with
  | error error => simp only [Cache.delete, valid, failed, kept]
  | ok =>
      simp only [Cache.delete, valid]
      split
      · rw [failed, kept]
      · rw [done, kept]

theorem clear_accounted (kept : cache.metrics = accounts start log) :
    (cache.clear provider now).2.metrics = accounts start
      (.clearing now (cache.clear provider now).1 :: log) := by
  simp only [Cache.clear]
  split
  · rw [(accounts_failed now start log _ 0).2.2, kept]
  · rw [(accounts_done now start log 0).2.2, kept]

/-- One call, whatever it is and whatever the provider answers. -/
theorem Request.after_accounted (request : Request) (kept : cache.metrics = accounts start log) :
    (request.after provider now cache).metrics =
      accounts start (request.record provider now cache :: log) := by
  cases request with
  | get key => exact get_accounted provider now start cache log key kept
  | getAs schema key =>
      have same : (cache.getAs provider now schema key).2.metrics =
          (cache.get provider now key).2.metrics := by
        simp only [Cache.getAs]
        split <;> rfl
      exact same.trans (get_accounted provider now start cache log key kept)
  | set key value => exact setFor_accounted provider now start cache log _ key value kept
  | setFor lifetime key value =>
      exact setFor_accounted provider now start cache log lifetime key value kept
  | setKeyed key members => exact setKeyed_accounted provider now start cache log key members kept
  | delete key => exact delete_accounted provider now start cache log key kept
  | clear => exact clear_accounted provider now start cache log kept

/-- A record that can be: only a read of a valid key finds a value, and one that meets an expired
entry finds none. -/
def Record.Sound (record : Record) : Prop :=
  (record.isHit = true → record.isValid = true) ∧ (record.isEviction = true → record.isMiss = true)

theorem get_sound (key : String) :
    Record.Sound (.read key (found provider now key cache) (cache.get provider now key).1) := by
  cases valid : validateKey key with
  | error error => simp [Record.Sound, Cache.get, found, valid, Record.isHit, Record.isEviction]
  | ok =>
      simp only [Cache.get, found, valid]
      generalize (provider.retrieve now key cache.storage).1 = found
      have counted (answer : Except CacheError (Option CacheValue)) :
          Record.isValid (.read key (some found) answer) = true := by
        rw [Record.isValid, valid]
        rfl
      refine ⟨fun _ => counted _, fun expired => ?_⟩
      rw [Record.isMiss, counted]
      unfold Record.isEviction at expired
      split at expired
      · next same =>
          injection same with _ lookup
          rw [Option.some.inj lookup]
          rfl
      · contradiction

theorem Request.record_sound (request : Request) : (request.record provider now cache).Sound := by
  cases request with
  | get key => exact get_sound provider now cache key
  | getAs schema key => exact get_sound provider now cache key
  | set | setFor | setKeyed | delete | clear => exact ⟨nofun, nofun⟩

/-- In a sound record every read of a valid key either found a value or did not. -/
theorem hits_misses (sound : ∀ record ∈ log, record.Sound) :
    log.countP Record.isHit + log.countP Record.isMiss = log.countP Record.isValid := by
  induction log with
  | nil => rfl
  | cons record rest ih =>
      rw [List.forall_mem_cons] at sound
      have others := ih sound.2
      have split : (if record.isHit then 1 else 0) + (if record.isMiss then 1 else 0) =
          if record.isValid then 1 else 0 := by
        have counted := sound.1.1
        rw [Record.isMiss]
        cases hit : record.isHit <;> cases valid : record.isValid <;> simp_all
      simp only [List.countP_cons]
      omega

theorem serve_accounted (calls : List (Call σ)) (state : Cache σ × List Record)
    (kept : state.1.metrics = accounts start state.2) (sound : ∀ record ∈ state.2, record.Sound) :
    let last := calls.foldl (serve provider) state
    last.1.metrics = accounts start last.2 ∧ (∀ record ∈ last.2, record.Sound) ∧
      last.2.length = state.2.length + calls.length := by
  induction calls generalizing state with
  | nil => exact ⟨kept, sound, rfl⟩
  | cons call rest ih =>
      obtain ⟨metrics, records, length⟩ := ih (serve provider state call)
        (call.request.after_accounted provider call.now start _ state.2 kept)
        (List.forall_mem_cons.mpr ⟨call.request.record_sound provider call.now _, sound⟩)
      refine ⟨metrics, records, length.trans ?_⟩
      rw [serve, List.length_cons, List.length_cons]
      omega

/-- The counters of a cache after any calls are those that the record of the calls accounts for. In
that record no more reads met an expired entry than found nothing, and the reads of valid keys are
those that found a value and those that did not. -/
theorem counters_account_for_calls (policy : Policy) (storage : σ) (calls : List (Call σ)) :
    let (cache, log) := served provider start policy storage calls
    cache.metrics = accounts start log ∧
      log.length = calls.length ∧
      log.countP Record.isEviction ≤ log.countP Record.isMiss ∧
      log.countP Record.isHit + log.countP Record.isMiss = log.countP Record.isValid ∧
      cache.metrics.hits + cache.metrics.misses = .ofNat (log.countP Record.isValid) := by
  obtain ⟨metrics, sound, length⟩ := serve_accounted provider start calls
    (.fresh start policy storage, []) (accounts_nil start).symm (by simp)
  have sum := hits_misses _ sound
  refine ⟨metrics, by simpa using length, ?_, sum, ?_⟩
  · exact List.countP_mono_left fun record among => (sound record among).2
  · rw [← sum, UInt64.ofNat_add]
    exact congrArg (fun counters => counters.hits + counters.misses) metrics

end RingCache.Cache
