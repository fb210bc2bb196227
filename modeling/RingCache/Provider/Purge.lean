import RingCache.Entry.Envelope
import RingCache.Provider.Basic

/-!
Reads and purges of stored envelopes. A purge takes two calls, between which other calls may fall:
it reads the key again, and deletes it if what it read is an expired envelope.
-/

namespace RingCache

namespace Envelope

def lookup (now : Time.Instant) : Option Bytes → Except CacheError Lookup
  | none => .ok .miss
  | some octets => match decode octets with
    | .error fault => .error (.codec (.envelope fault))
    | .ok entry => .ok (if entry.expiredAt now then .expired else .hit entry)

/-- A stored value is an expired envelope; missing values and others are left alone. -/
def stillExpired (now : Time.Instant) : Option Bytes → Bool
  | none => false
  | some octets => match decode octets with
    | .error _ => false
    | .ok entry => entry.expiredAt now

end Envelope

inductive Purge where
  | reread (key : String)
  | remove (key : String)
  deriving DecidableEq, Repr

/-- The calls that a purge makes; a read that fails gives nothing. -/
structure Purge.Access (σ : Type) where
  read : String → σ → Option (Option Bytes) × σ
  remove : String → σ → σ

namespace Purge

variable {σ : Type} (access : Access σ) (now : Time.Instant)

def step : Purge → σ → Option Purge × σ
  | .reread key, state =>
      let (raw, state) := access.read key state
      match raw with
      -- The removal that is left does not look again.
      | some raw => (if Envelope.stillExpired now raw then some (.remove key) else none, state)
      | none => (none, state)
  | .remove key, state => (none, access.remove key state)

def stepAll : List Purge → σ → List Purge × σ
  | [], state => ([], state)
  | purge :: rest, state =>
      let (next, state) := step access now purge state
      let (left, state) := stepAll rest state
      (next.toList ++ left, state)

def run (purge : Purge) (state : σ) : σ :=
  match step access now purge state with
  | (none, state) => state
  | (some next, state) => (step access now next state).2

def runAll (purges : List Purge) (state : σ) : σ :=
  purges.foldl (fun state purge => run access now purge state) state

end Purge

def Lookup.purges (key : String) : Except CacheError Lookup → List Purge
  | .ok .expired => [.reread key]
  | _ => []

end RingCache
