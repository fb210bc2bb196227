import RingCache.Json.Schema
import RingCache.Time.Rfc3339

/-!
Counters of a cache. They are 64-bit words and wrap around. The time of the last change is kept in
whole milliseconds.
-/

namespace RingCache

structure Metrics where
  hits : UInt64
  misses : UInt64
  /-- Reads that found an expired entry. -/
  evictions : UInt64
  /-- Octets of the values written since the last clearing. -/
  size : UInt64
  updated : Time.Instant
  deriving DecidableEq, Repr

namespace Metrics

def fresh (now : Time.Instant) : Metrics := ⟨0, 0, 0, 0, now.wholeMillis⟩

def hit (metrics : Metrics) : Metrics := { metrics with hits := metrics.hits + 1 }

def miss (metrics : Metrics) : Metrics := { metrics with misses := metrics.misses + 1 }

def evict (metrics : Metrics) : Metrics := { metrics with evictions := metrics.evictions + 1 }

def touch (now : Time.Instant) (metrics : Metrics) : Metrics :=
  { metrics with updated := now.wholeMillis }

def wrote (now : Time.Instant) (size : UInt64) (metrics : Metrics) : Metrics :=
  touch now { metrics with size := metrics.size + size }

def resetSize (now : Time.Instant) (metrics : Metrics) : Metrics :=
  touch now { metrics with size := 0 }

def hitRate (metrics : Metrics) : Binary64 :=
  let reads := metrics.hits + metrics.misses
  if reads = 0 then .zero
  else (Binary64.ofNat metrics.hits.toNat).div (Binary64.ofNat reads.toNat)

def toJson (metrics : Metrics) : Json :=
  .object [("hits", .ofNat metrics.hits.toNat), ("misses", .ofNat metrics.misses.toNat),
    ("evictions", .ofNat metrics.evictions.toNat), ("size", .ofNat metrics.size.toNat),
    ("last_updated", .string (Time.Rfc3339.text metrics.updated))]

def readDate (text : String) : Except String String :=
  match Time.Rfc3339.read text with
  | .ok instant => .ok (Time.Rfc3339.text instant)
  | .error fault => .error fault.message

def schema : Json.Schema :=
  .record "MetricsSnapshot" [("hits", .u64, none), ("misses", .u64, none),
    ("evictions", .u64, none), ("size", .u64, none),
    ("last_updated", .text "an RFC 3339 formatted date and time string" readDate, none)]

def ofJson (document : Json) : Metrics where
  hits := .ofNat (document.field "hits").asNat
  misses := .ofNat (document.field "misses").asNat
  evictions := .ofNat (document.field "evictions").asNat
  size := .ofNat (document.field "size").asNat
  updated := (Time.Rfc3339.read (document.field "last_updated").asString).toOption.getD default

def read (text : Bytes) : Except Json.Fault Metrics := do
  let document ← schema.parse text
  return ofJson document

end Metrics

end RingCache
