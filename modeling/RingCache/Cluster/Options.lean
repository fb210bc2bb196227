import RingCache.Time.Instant

/-!
Options of a distributed cache. Zero stands for the default where a zero would make no sense.

The timeout of an operation is a length of time that the clock can be set forward by. The clock counts
seconds in 64 bits with a sign, so a timeout of 2^63 seconds or more has no deadline at any time: no
operation that needs one comes to an end with it, not even with an error, and there is no such timeout
here.
-/

namespace RingCache.Cluster

/-- Accepted for compatibility; writes go to every replica at every level. -/
inductive Consistency where
  | one
  | quorum
  | all
  deriving DecidableEq, Repr, Inhabited

structure Timeout where
  span : Time.Span
  short : span.seconds < Nat.pow 2 63
  deriving DecidableEq, Repr

namespace Timeout

def ofSpan? (span : Time.Span) : Option Timeout :=
  if short : span.seconds < Nat.pow 2 63 then some ⟨span, short⟩ else none

def ofMillis (ms : UInt64) : Timeout where
  span := .ofMillis ms.toNat
  short := by
    have bound := ms.toNat_lt
    change ms.toNat / 1000 < 2 ^ 63
    omega

end Timeout

namespace Consistency

def name : Consistency → String
  | .one => "one"
  | .quorum => "quorum"
  | .all => "all"

def names : List String := [one, quorum, all].map name

def ofName (name : String) : Consistency :=
  if name = one.name then .one else if name = quorum.name then .quorum else .all

end Consistency

structure Options where
  replicationFactor : Nat
  /-- The deadline of one operation, shared by the nodes that it asks. -/
  timeout : Timeout
  /-- Attempts of one request over HTTP. -/
  retryAttempts : Nat
  consistency : Consistency
  virtualNodes : Nat
  healthInterval : Time.Span
  healthTimeout : Time.Span
  deriving DecidableEq, Repr

namespace Options

def standard : Options where
  replicationFactor := 2
  timeout := .ofMillis 5000
  retryAttempts := 3
  consistency := .all
  virtualNodes := 100
  healthInterval := .ofSeconds 30
  healthTimeout := .ofSeconds 2

def normalized (options : Options) : Options :=
  { options with
    replicationFactor :=
      if options.replicationFactor = 0 then standard.replicationFactor
      else options.replicationFactor
    timeout := if options.timeout.span.isZero then standard.timeout else options.timeout
    virtualNodes :=
      if options.virtualNodes = 0 then standard.virtualNodes else options.virtualNodes
    healthInterval :=
      if options.healthInterval.isZero then standard.healthInterval else options.healthInterval
    healthTimeout :=
      if options.healthTimeout.isZero then standard.healthTimeout else options.healthTimeout }

end Options

end RingCache.Cluster
