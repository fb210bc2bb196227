import RingCache.Cache.Metrics
import RingCache.Cache.Policy
import RingCache.Provider.Basic

/-!
The cache that users see. It checks keys and sizes before anything else happens, makes entries and
opens them, and counts what happens; entries are stored by a provider.
-/

namespace RingCache

structure Cache (σ : Type) where
  policy : Policy
  metrics : Metrics
  storage : σ

namespace Cache

variable {σ : Type} (provider : Provider σ) (now : Time.Instant)

def fresh (policy : Policy) (storage : σ) : Cache σ := ⟨policy, .fresh now, storage⟩

/-- What a read gives and counts. A value that cannot be opened counts as a miss. -/
def account (codec : Codec) (found : Except CacheError Lookup) (metrics : Metrics) :
    Except CacheError (Option CacheValue) × Metrics :=
  match found with
  | .error error => (.error error, metrics.miss)
  | .ok .miss => (.ok none, metrics.miss)
  | .ok .expired => (.ok none, metrics.miss.evict)
  | .ok (.hit entry) => match CacheValue.ofEntry codec entry with
    | .ok value => (.ok (some value), metrics.hit)
    | .error error => (.error error, metrics.miss)

def get (key : String) (cache : Cache σ) :
    Except CacheError (Option CacheValue) × Cache σ :=
  match validateKey key with
  | .error error => (.error error, cache)
  | .ok () =>
      let (found, storage) := provider.retrieve now key cache.storage
      let (result, metrics) := account cache.policy.codec found cache.metrics
      (result, { cache with metrics, storage })

def getAs (schema : Json.Schema) (key : String) (cache : Cache σ) :
    Except CacheError (Option Json) × Cache σ :=
  let (result, cache) := cache.get provider now key
  match result with
  | .error error => (.error error, cache)
  | .ok none => (.ok none, cache)
  | .ok (some value) => ((value.readAs schema).map some, cache)

def setFor (lifetime : Time.Span) (key : String) (value : CacheValue) (cache : Cache σ) :
    Except CacheError Unit × Cache σ :=
  -- The limit holds for the value as it was given, before compression.
  let encoded := value.encode
  match validateKey key with
  | .error error => (.error error, cache)
  | .ok () => match cache.policy.checkSize encoded.length with
    | .error error => (.error error, cache)
    | .ok () =>
        let entry := cache.policy.entryOf now lifetime value.contentType encoded
        let (result, storage) := provider.store key entry cache.storage
        match result with
        | .error error => (.error error, { cache with storage })
        | .ok () =>
            (.ok (), { cache with
              metrics := cache.metrics.wrote now (.ofNat encoded.length), storage })

def set (key : String) (value : CacheValue) (cache : Cache σ) :
    Except CacheError Unit × Cache σ :=
  cache.setFor provider now cache.policy.lifetime key value

/-- Writes a structured value, given by its members. Members that make no document are refused before
anything else is looked at. -/
def setKeyed (key : String) (members : List (Json × Json)) (cache : Cache σ) :
    Except CacheError Unit × Cache σ :=
  match CacheValue.ofKeyed members with
  | .error error => (.error error, cache)
  | .ok value => cache.set provider now key value

def delete (key : String) (cache : Cache σ) : Except CacheError Unit × Cache σ :=
  match validateKey key with
  | .error error => (.error error, cache)
  | .ok () =>
      let (result, storage) := provider.delete key cache.storage
      match result with
      | .error error => (.error error, { cache with storage })
      | .ok () => (.ok (), { cache with metrics := cache.metrics.touch now, storage })

def clear (cache : Cache σ) : Except CacheError Unit × Cache σ :=
  let (result, storage) := provider.clear cache.storage
  match result with
  | .error error => (.error error, { cache with storage })
  | .ok () => (.ok (), { cache with metrics := cache.metrics.resetSize now, storage })

end Cache

end RingCache
