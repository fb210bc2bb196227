import RingCache.Proofs.ReadableValues

/-!
Lifetimes. An entry expires its lifetime after it was made, counted to the nanosecond, or at the latest
instant if that comes first. A lifetime that is too long to be added at all is longer than the time
from any instant to the latest one, so it needs no case of its own.
-/

namespace RingCache

namespace Time

namespace Instant

def toNanos (instant : Instant) : ℤ := instant.seconds * nanosPerSecond + instant.nanos

/-- The instants that a clock shows, which are in no leap second. -/
structure Ordinary (instant : Instant) : Prop where
  readable : instant.Exact
  nanos : instant.nanos < nanosPerSecond

theorem latest_ordinary : latest.Ordinary := ⟨by decide, by decide⟩

variable {a b now : Instant}

theorem before_iff (first : a.nanos < nanosPerSecond) (second : b.nanos < nanosPerSecond) :
    a.before b = true ↔ a.toNanos < b.toNanos := by
  simp only [before, toNanos, nanosPerSecond, Bool.or_eq_true, Bool.and_eq_true,
    decide_eq_true_eq] at *
  omega

theorem not_before_iff (first : a.nanos < nanosPerSecond) (second : b.nanos < nanosPerSecond) :
    a.before b = false ↔ b.toNanos ≤ a.toNanos := by
  rw [← Bool.not_eq_true, before_iff first second, Int.not_lt]

theorem eq_of_toNanos (first : a.nanos < nanosPerSecond) (second : b.nanos < nanosPerSecond)
    (same : a.toNanos = b.toNanos) : a = b := by
  obtain ⟨seconds, nanos⟩ := a
  obtain ⟨otherSeconds, otherNanos⟩ := b
  simp only [toNanos, nanosPerSecond, Instant.mk.injEq] at *
  omega

theorem Ordinary.earliest_le (ordinary : a.Ordinary) : earliest.toNanos ≤ a.toNanos := by
  have first := ordinary.readable.first
  simp only [toNanos, earliest, nanosPerSecond] at *
  omega

theorem Ordinary.le_latest (ordinary : a.Ordinary) : a.toNanos ≤ latest.toNanos := by
  obtain ⟨⟨_, last, _⟩, nanos⟩ := ordinary
  simp only [toNanos, latest, nanosPerSecond] at *
  omega

/-- Whole seconds are carried, and nothing is lost. -/
theorem toNanos_later (start : Instant) (span : Span) :
    (start.later span).toNanos = start.toNanos + span.toNanos := by
  simp only [later, toNanos, Span.toNanos, nanosPerSecond]
  omega

theorem later_nanos (start : Instant) (span : Span) :
    (start.later span).nanos < nanosPerSecond :=
  Nat.mod_lt _ (by decide)

/-- From no instant on is there room for a span that cannot be added. -/
theorem Ordinary.unaddable (ordinary : now.Ordinary) (span : Span)
    (tooLong : span.isAddable = false) : latest.toNanos < now.toNanos + span.toNanos := by
  have first := ordinary.earliest_le
  have longest : Span.longestAddable.toNanos = 9223372036854775807000000 := by decide
  have long : Span.longestAddable.toNanos < span.toNanos := by simpa [Span.isAddable] using tooLong
  simp only [toNanos, earliest, latest, nanosPerSecond] at *
  omega

theorem beyond_iff (now : Instant) (span : Span) :
    latest.before (now.later span) = true ↔ latest.toNanos < now.toNanos + span.toNanos := by
  rw [before_iff latest_ordinary.nanos (later_nanos now span), toNanos_later]

/-- The one limit that is felt is that of the instants. -/
theorem Ordinary.laterOrLatest_eq (ordinary : now.Ordinary) (span : Span) :
    now.laterOrLatest span =
      if latest.before (now.later span) then latest else now.later span := by
  rw [Instant.laterOrLatest, plus?]
  cases addable : span.isAddable with
  | false =>
      have beyond := (beyond_iff now span).mpr (ordinary.unaddable span addable)
      simp [beyond]
  | true =>
      cases beyond : latest.before (now.later span) <;> simp [beyond]

/-- The sum saturates: it is exact up to the latest instant. -/
theorem Ordinary.toNanos_laterOrLatest (ordinary : now.Ordinary) (span : Span) :
    (now.laterOrLatest span).toNanos = min (now.toNanos + span.toNanos) latest.toNanos := by
  have compared := beyond_iff now span
  rw [ordinary.laterOrLatest_eq]
  split
  · next beyond => exact (min_eq_right (compared.mp beyond).le).symm
  · next within =>
      rw [toNanos_later]
      exact (min_eq_left (Int.not_lt.mp (mt compared.mpr within))).symm

theorem Ordinary.laterOrLatest (ordinary : now.Ordinary) (span : Span) :
    (now.laterOrLatest span).Ordinary := by
  refine ⟨ordinary.readable.laterOrLatest span, ?_⟩
  rw [ordinary.laterOrLatest_eq]
  split
  · exact latest_ordinary.nanos
  · exact later_nanos now span

/-- Up to its expiry, an instant is no more than the span later, also where the sum saturates. -/
theorem Ordinary.alive_iff (ordinary : now.Ordinary) (span : Span) {later : Instant}
    (shown : later.Ordinary) : (now.laterOrLatest span).before later = false ↔
      later.toNanos ≤ now.toNanos + span.toNanos := by
  rw [not_before_iff (ordinary.laterOrLatest span).nanos shown.nanos,
    ordinary.toNanos_laterOrLatest, le_min_iff]
  exact and_iff_left shown.le_latest

/-- A sum that is an instant is the one that is found. -/
theorem Ordinary.laterOrLatest_exact (ordinary : now.Ordinary) (span : Span) {sum : Instant}
    (shown : sum.Ordinary) (exact : sum.toNanos = now.toNanos + span.toNanos) :
    now.laterOrLatest span = sum := by
  refine eq_of_toNanos (ordinary.laterOrLatest span).nanos shown.nanos ?_
  rw [ordinary.toNanos_laterOrLatest, ← exact]
  exact min_eq_left shown.le_latest

theorem Ordinary.laterOrLatest_mono (ordinary : now.Ordinary) {span longer : Span}
    (more : span.toNanos ≤ longer.toNanos) :
    (now.laterOrLatest longer).before (now.laterOrLatest span) = false := by
  have onward : now.toNanos + (span.toNanos : ℤ) ≤ now.toNanos + longer.toNanos := by omega
  rw [not_before_iff (ordinary.laterOrLatest longer).nanos (ordinary.laterOrLatest span).nanos,
    ordinary.toNanos_laterOrLatest, ordinary.toNanos_laterOrLatest]
  exact min_le_min_right _ onward

end Instant

end Time

open Time (Instant Span)

namespace Cache

variable {key : String}

/-- What is made at an instant outside leap seconds expires a lifetime later, to the nanosecond, or at
the latest instant if that is sooner. It never expires before it was made, and a longer lifetime never
ends earlier. What is written is read for as long: at an instant that a clock shows, while no more than
the lifetime has gone by; at any instant, those of leap seconds too, while the sum is not before it; and
at every instant that a clock shows if the sum is past the latest one. -/
theorem lifetime_saturates (cache : Cache Storage) (now : Instant) (ordinary : now.Ordinary)
    (lifetime : Span) :
    (∀ contentType size,
      let made := cache.policy.metadata now lifetime contentType size
      made.created = now ∧ made.expires.Ordinary ∧
        made.expires.toNanos = min (now.toNanos + lifetime.toNanos) Instant.latest.toNanos ∧
        made.expires.before made.created = false ∧
        ∀ longer : Span, lifetime.toNanos ≤ longer.toNanos →
          (cache.policy.metadata now longer contentType size).expires.before made.expires =
            false) ∧
      ∀ value : CacheValue, cache.storage.Ready →
        (cache.policy.entryOf now lifetime value.contentType value.encode).payload.length < 2 ^ 64 →
        let written := cache.setFor Storage.provider now lifetime key value
        let decoded := (CacheValue.decode value.contentType value.encode).map some
        written.1 = .ok () →
          (∀ later : Instant, later.Ordinary →
            (written.2.get Storage.provider later key).1 =
              if later.toNanos ≤ now.toNanos + lifetime.toNanos then decoded else .ok none) ∧
          (∀ sum : Instant, sum.Ordinary → sum.toNanos = now.toNanos + lifetime.toNanos →
            ∀ later, (written.2.get Storage.provider later key).1 =
              if sum.before later then .ok none else decoded) ∧
          (Instant.latest.toNanos < now.toNanos + lifetime.toNanos →
            ∀ later : Instant, later.Ordinary →
              (written.2.get Storage.provider later key).1 = decoded) := by
  constructor
  · intro contentType size made
    have onward : now.toNanos ≤ now.toNanos + lifetime.toNanos := by omega
    exact ⟨rfl, ordinary.laterOrLatest lifetime, ordinary.toNanos_laterOrLatest lifetime,
      (ordinary.alive_iff lifetime ordinary).mpr onward,
      fun longer more => ordinary.laterOrLatest_mono more⟩
  · intro value ready small written decoded done
    have read (later : Instant) : (written.2.get Storage.provider later key).1 =
        if (now.laterOrLatest lifetime).before later then .ok none else decoded :=
      get_setFor_at cache ready now later ordinary.readable lifetime value small done
    have timely : ∀ later : Instant, later.Ordinary →
        (written.2.get Storage.provider later key).1 =
          if later.toNanos ≤ now.toNanos + lifetime.toNanos then decoded else .ok none := by
      intro later clock
      rw [read]
      simp only [← ordinary.alive_iff lifetime clock]
      cases (now.laterOrLatest lifetime).before later <;> rfl
    refine ⟨timely, ?_, ?_⟩
    · intro sum shown exact later
      rw [read, ordinary.laterOrLatest_exact lifetime shown exact]
    · intro beyond later clock
      -- No clock shows an instant past the latest one.
      rw [timely later clock, if_pos (clock.le_latest.trans beyond.le)]

-- A second before the latest instant, at one node: two nanoseconds are carried into the next
-- second, and the longest of all lifetimes ends with the latest instant.
def endOfTime : Instant := ⟨8210266876798, 999999999⟩

def longestSpan : Span := ⟨18446744073709551615, 999999999⟩

theorem lifetime_saturates_late :
    let cache : Cache Storage := .fresh ⟨0, 0⟩ plain.policy (.remote ⟨"r", .empty, []⟩)
    let brief := cache.setFor Storage.provider endOfTime ⟨0, 2⟩ "k" (.binary [7])
    let endless := cache.setFor Storage.provider endOfTime longestSpan "k" (.binary [7])
    endOfTime.Ordinary ∧ cache.storage.Ready ∧ brief.1 = .ok () ∧ endless.1 = .ok () ∧
      (brief.2.get Storage.provider ⟨8210266876799, 1⟩ "k").1 = .ok (some (.binary [7])) ∧
      (brief.2.get Storage.provider ⟨8210266876799, 2⟩ "k").1 = .ok none ∧
      (cache.policy.metadata endOfTime longestSpan .binary 1).expires.toNanos =
        Instant.latest.toNanos ∧
      (endless.2.get Storage.provider Instant.latest "k").1 = .ok (some (.binary [7])) := by
  intro cache brief endless
  have ordinary : endOfTime.Ordinary := ⟨by decide, by decide⟩
  have ready : cache.storage.Ready := .remote "r" .empty (Cluster.Peer.fresh_serving "r")
  have briefDone : brief.1 = .ok () := rfl
  have endlessDone : endless.1 = .ok () := rfl
  obtain ⟨_, reads⟩ := lifetime_saturates cache endOfTime ordinary ⟨0, 2⟩
  obtain ⟨timely, _⟩ := reads (.binary [7]) ready (by decide) briefDone
  obtain ⟨made, forever⟩ := lifetime_saturates cache endOfTime ordinary longestSpan
  obtain ⟨_, _, saturates⟩ := forever (.binary [7]) ready (by decide) endlessDone
  refine ⟨ordinary, ready, briefDone, endlessDone, ?_, ?_, ?_, ?_⟩
  · exact timely ⟨8210266876799, 1⟩ ⟨by decide, by decide⟩
  · exact timely ⟨8210266876799, 2⟩ ⟨by decide, by decide⟩
  · exact (made .binary 1).2.2.1
  · exact saturates (by decide) _ Instant.latest_ordinary

end Cache

end RingCache
