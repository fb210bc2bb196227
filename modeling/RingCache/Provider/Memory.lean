import RingCache.Provider.Basic
import RingCache.Table

/-!
The provider that keeps entries in process. A read that finds an expired entry leaves a purge of its
key behind; the purge looks again and erases the entry only if it is expired then, so what is
stored later survives. A janitor sweeps all expired entries from time to time.
-/

namespace RingCache

structure Memory where
  entries : Table Entry
  /-- Keys whose purge has not run yet, oldest first. -/
  pending : List String
  deriving Repr

namespace Memory

def empty : Memory := ⟨.empty, []⟩

def size (memory : Memory) : Nat := memory.entries.size

def store (key : String) (entry : Entry) (memory : Memory) : Memory :=
  { memory with entries := memory.entries.insert key entry }

def retrieve (now : Time.Instant) (key : String) (memory : Memory) : Lookup × Memory :=
  match memory.entries.get? key with
  | none => (.miss, memory)
  | some entry =>
      if entry.expiredAt now then (.expired, { memory with pending := memory.pending ++ [key] })
      else (.hit entry, memory)

def delete (key : String) (memory : Memory) : Memory :=
  { memory with entries := memory.entries.erase key }

def clear (memory : Memory) : Memory := { memory with entries := .empty }

def purgeKey (now : Time.Instant) (key : String) (memory : Memory) : Memory :=
  { memory with entries := memory.entries.eraseIf (·.expiredAt now) key }

def settle (now : Time.Instant) (memory : Memory) : Memory :=
  memory.pending.foldl (fun memory key => memory.purgeKey now key) { memory with pending := [] }

def sweep (now : Time.Instant) (memory : Memory) : Memory :=
  { memory with entries := memory.entries.filter fun entry => !entry.expiredAt now }

def provider : Provider Memory where
  name _ := "memory"
  store key entry memory := (.ok (), memory.store key entry)
  retrieve now key memory :=
    let (found, memory) := memory.retrieve now key
    (.ok found, memory)
  delete key memory := (.ok (), memory.delete key)
  clear memory := (.ok (), memory.clear)

end Memory

-- The janitor sweeps a period after it was started and every period from then on, and leaves at the
-- first of these times when the cache is gone.
namespace Janitor

def sweepsBefore (period stop : Nat) : Nat := (stop - 1) / period

def tend (period start stop : Nat) (now : Time.Instant) (memory : Memory) : Memory :=
  (List.range (sweepsBefore period stop - sweepsBefore period start)).foldl
    (fun memory _ => memory.sweep now) memory

def hasLeft (period stop : Nat) : Bool := 0 < sweepsBefore period stop

end Janitor

end RingCache
