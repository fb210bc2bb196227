import RingCache.Cache.Basic
import RingCache.Proofs.PurgeRaces

/-!
Calls of a user. Whatever a call answers and counts, its provider runs one operation, or none when
the call is turned down before. The operation names a key that is not empty, and writes or removes no
key but the one that was asked for.
-/

namespace RingCache

theorem validateKey_nonempty {key : String} (valid : validateKey key = .ok ()) : key ≠ "" := by
  rintro rfl
  contradiction

namespace Cache

inductive Request where
  | get (key : String)
  | getAs (schema : Json.Schema) (key : String)
  | set (key : String) (value : CacheValue)
  | setFor (lifetime : Time.Span) (key : String) (value : CacheValue)
  | setKeyed (key : String) (members : List (Json × Json))
  | delete (key : String)
  | clear

namespace Request

def after {σ : Type} (provider : Provider σ) (now : Time.Instant) : Request → Cache σ → Cache σ
  | .get key, cache => (cache.get provider now key).2
  | .getAs schema key, cache => (cache.getAs provider now schema key).2
  | .set key value, cache => (cache.set provider now key value).2
  | .setFor lifetime key value, cache => (cache.setFor provider now lifetime key value).2
  | .setKeyed key members, cache => (cache.setKeyed provider now key members).2
  | .delete key, cache => (cache.delete provider now key).2
  | .clear, cache => (cache.clear provider now).2

def Spares (key : String) : Request → Prop
  | .get _ => True
  | .getAs _ _ => True
  | .set other _ => other ≠ key
  | .setFor _ other _ => other ≠ key
  | .setKeyed other _ => other ≠ key
  | .delete other => other ≠ key
  | .clear => False

def ifValid (key : String) (operation : Operation) : Option Operation :=
  match validateKey key with
  | .ok () => some operation
  | .error _ => none

def writing (policy : Policy) (now : Time.Instant) (lifetime : Time.Span) (key : String)
    (value : CacheValue) : Option Operation :=
  match policy.checkSize value.encode.length with
  | .ok () => ifValid key (.store key (policy.entryOf now lifetime value.contentType value.encode))
  | .error _ => none

def operation (policy : Policy) (now : Time.Instant) : Request → Option Operation
  | .get key => ifValid key (.retrieve key)
  | .getAs _ key => ifValid key (.retrieve key)
  | .set key value => writing policy now policy.lifetime key value
  | .setFor lifetime key value => writing policy now lifetime key value
  | .setKeyed key members => match CacheValue.ofKeyed members with
    | .ok value => writing policy now policy.lifetime key value
    | .error _ => none
  | .delete key => ifValid key (.delete key)
  | .clear => some .clear

variable {σ : Type} (provider : Provider σ) (now : Time.Instant) (cache : Cache σ)

def ran (operation : Option Operation) (state : σ) : σ :=
  match operation with
  | none => state
  | some operation => (operation.run provider now state).2

theorem get_storage (key : String) : (cache.get provider now key).2.storage =
    ran provider now (ifValid key (.retrieve key)) cache.storage := by
  simp only [Cache.get, ifValid]
  cases validateKey key with
  | error error => rfl
  | ok => rfl

theorem setFor_storage (lifetime : Time.Span) (key : String) (value : CacheValue) :
    (cache.setFor provider now lifetime key value).2.storage =
      ran provider now (writing cache.policy now lifetime key value) cache.storage := by
  simp only [Cache.setFor, writing, ifValid]
  cases validateKey key with
  | error error => cases cache.policy.checkSize value.encode.length <;> rfl
  | ok =>
      cases cache.policy.checkSize value.encode.length with
      | error error => rfl
      | ok =>
          dsimp only
          split <;> rfl

theorem setKeyed_storage (key : String) (members : List (Json × Json)) :
    (cache.setKeyed provider now key members).2.storage =
      ran provider now (operation cache.policy now (.setKeyed key members)) cache.storage := by
  simp only [Cache.setKeyed, operation]
  cases CacheValue.ofKeyed members with
  | error error => rfl
  | ok value => exact setFor_storage provider now cache cache.policy.lifetime key value

theorem delete_storage (key : String) : (cache.delete provider now key).2.storage =
    ran provider now (ifValid key (.delete key)) cache.storage := by
  simp only [Cache.delete, ifValid]
  cases validateKey key with
  | error error => rfl
  | ok =>
      dsimp only
      split <;> rfl

theorem clear_storage : (cache.clear provider now).2.storage =
    ran provider now (some .clear) cache.storage := by
  simp only [Cache.clear]
  split <;> rfl

theorem getAs_storage (schema : Json.Schema) (key : String) :
    (cache.getAs provider now schema key).2.storage = (cache.get provider now key).2.storage := by
  simp only [Cache.getAs]
  split <;> rfl

/-- A call changes the storage by its operation and in no other way. -/
theorem after_storage (request : Request) : (request.after provider now cache).storage =
    ran provider now (request.operation cache.policy now) cache.storage := by
  cases request with
  | get key => exact get_storage provider now cache key
  | getAs schema key =>
      exact (getAs_storage provider now cache schema key).trans (get_storage provider now cache key)
  | set key value => exact setFor_storage provider now cache cache.policy.lifetime key value
  | setFor lifetime key value => exact setFor_storage provider now cache lifetime key value
  | setKeyed key members => exact setKeyed_storage provider now cache key members
  | delete key => exact delete_storage provider now cache key
  | clear => exact clear_storage provider now cache

/-- No call changes the policy. -/
theorem after_policy (request : Request) :
    (request.after provider now cache).policy = cache.policy := by
  have read (key : String) : (cache.get provider now key).2.policy = cache.policy := by
    simp only [Cache.get]
    split <;> rfl
  have written (lifetime : Time.Span) (key : String) (value : CacheValue) :
      (cache.setFor provider now lifetime key value).2.policy = cache.policy := by
    simp only [Cache.setFor]
    repeat' split
    all_goals rfl
  cases request with
  | get key => exact read key
  | getAs schema key =>
      have same : (cache.getAs provider now schema key).2 = (cache.get provider now key).2 := by
        simp only [Cache.getAs]
        split <;> rfl
      exact (congrArg Cache.policy same).trans (read key)
  | set key value => exact written _ key value
  | setFor lifetime key value => exact written lifetime key value
  | setKeyed key members =>
      simp only [after, Cache.setKeyed]
      split
      · rfl
      · exact written _ key _
  | delete key =>
      simp only [after, Cache.delete]
      repeat' split
      all_goals rfl
  | clear =>
      simp only [after, Cache.clear]
      split <;> rfl

theorem ifValid_some {key : String} {operation asked : Operation}
    (made : ifValid key operation = some asked) : key ≠ "" ∧ operation = asked := by
  rw [ifValid] at made
  split at made
  · next valid => exact ⟨validateKey_nonempty valid, Option.some.inj made⟩
  · contradiction

theorem writing_some {policy : Policy} {lifetime : Time.Span} {key : String} {value : CacheValue}
    {asked : Operation} (made : writing policy now lifetime key value = some asked) :
    key ≠ "" ∧
      .store key (policy.entryOf now lifetime value.contentType value.encode) = asked := by
  rw [writing] at made
  split at made
  · exact ifValid_some made
  · contradiction

/-- The operation of a call is about a key, and leaves the keys alone that the call does. -/
theorem operation_spares (policy : Policy) (request : Request) (asked : Operation)
    (made : request.operation policy now = some asked) :
    asked.Keyed ∧ ∀ key, request.Spares key → (Turn.client asked).Spares key := by
  cases request with
  | get key =>
      obtain ⟨keyed, rfl⟩ := ifValid_some made
      exact ⟨keyed, fun _ _ => trivial⟩
  | getAs schema key =>
      obtain ⟨keyed, rfl⟩ := ifValid_some made
      exact ⟨keyed, fun _ _ => trivial⟩
  | set key value =>
      obtain ⟨keyed, rfl⟩ := writing_some now made
      exact ⟨keyed, fun _ => id⟩
  | setFor lifetime key value =>
      obtain ⟨keyed, rfl⟩ := writing_some now made
      exact ⟨keyed, fun _ => id⟩
  | setKeyed key members =>
      simp only [operation] at made
      split at made
      · obtain ⟨keyed, rfl⟩ := writing_some now made
        exact ⟨keyed, fun _ => id⟩
      · contradiction
  | delete key =>
      obtain ⟨keyed, rfl⟩ := ifValid_some made
      exact ⟨keyed, fun _ => id⟩
  | clear =>
      obtain rfl := Option.some.inj made
      exact ⟨trivial, fun _ => id⟩

end Request

end Cache

end RingCache
