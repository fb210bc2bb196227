import RingCache.Entry.Basic
import RingCache.Error

/-!
What the cache stores its entries through. A provider is a set of operations on a state; time comes
in as an argument. A journal counts the calls that a provider gets.
-/

namespace RingCache

/-- What a read finds. An expired entry is still there until its purge has run. -/
inductive Lookup where
  | hit (entry : Entry)
  | miss
  | expired
  deriving DecidableEq, Repr

structure Provider (σ : Type) where
  name : σ → String
  store : String → Entry → σ → Except CacheError Unit × σ
  retrieve : Time.Instant → String → σ → Except CacheError Lookup × σ
  delete : String → σ → Except CacheError Unit × σ
  clear : σ → Except CacheError Unit × σ

structure Journal where
  stores : Nat
  retrieves : Nat
  deletes : Nat
  clears : Nat
  lastEntry : Option Entry
  deriving DecidableEq, Repr

def Journal.empty : Journal := ⟨0, 0, 0, 0, none⟩

namespace Provider

variable {σ : Type}

def journaled (provider : Provider σ) : Provider (Journal × σ) where
  name state := provider.name state.2
  store key entry state :=
    let (result, inner) := provider.store key entry state.2
    (result, { state.1 with stores := state.1.stores + 1, lastEntry := some entry }, inner)
  retrieve now key state :=
    let (result, inner) := provider.retrieve now key state.2
    (result, { state.1 with retrieves := state.1.retrieves + 1 }, inner)
  delete key state :=
    let (result, inner) := provider.delete key state.2
    (result, { state.1 with deletes := state.1.deletes + 1 }, inner)
  clear state :=
    let (result, inner) := provider.clear state.2
    (result, { state.1 with clears := state.1.clears + 1 }, inner)

end Provider

end RingCache
