import Mathlib.Data.List.Induction
import RingCache.Provider.Memory

/-!
Expiry in process. Purges and sweeps run at any time, in any order, and purges any number of times
for one key; compared with a table that nothing is ever purged from, they take away entries that are
expired, and a moving clock never makes such an entry fresh again. So a read hits in one exactly when
it hits in the other.
-/

namespace RingCache.Memory

open Time

inductive Event where
  | store (key : String) (entry : Entry)
  | retrieve (key : String)
  | delete (key : String)
  | clear
  | sweep
  /-- The purge at this place among those that are left. -/
  | purge (place : Nat)

def runPurge (now : Instant) (place : Nat) (memory : Memory) : Memory :=
  match memory.pending[place]? with
  | none => memory
  | some key => purgeKey now key { memory with pending := memory.pending.eraseIdx place }

def after (now : Instant) : Event → Memory → Memory
  | .store key entry, memory => memory.store key entry
  | .retrieve key, memory => (memory.retrieve now key).2
  | .delete key, memory => memory.delete key
  | .clear, memory => memory.clear
  | .sweep, memory => memory.sweep now
  | .purge place, memory => memory.runPurge now place

abbrev Course := List (Instant × Event)

def run (course : Course) (memory : Memory) : Memory :=
  course.foldl (fun memory (now, event) => memory.after now event) memory

/-- A janitor's work is a course of sweeps. -/
theorem tend_eq_run (period start stop : Nat) (now : Instant) (memory : Memory) :
    Janitor.tend period start stop now memory =
      run (List.replicate (Janitor.sweepsBefore period stop - Janitor.sweepsBefore period start)
        (now, .sweep)) memory := by
  rw [Janitor.tend]
  generalize Janitor.sweepsBefore period stop - Janitor.sweepsBefore period start = sweeps
  induction sweeps with
  | zero => rfl
  | succ sweeps ih =>
      rw [List.range_succ, List.foldl_append, ih, List.replicate_succ', run, run,
        List.foldl_append]
      rfl

/-- Settling is the course in which all purges run, oldest first. -/
theorem settle_eq_run (now : Instant) (memory : Memory) :
    memory.settle now = run (List.replicate memory.pending.length (now, .purge 0)) memory := by
  obtain ⟨entries, pending⟩ := memory
  simp only [settle]
  induction pending generalizing entries with
  | nil => rfl
  | cons key rest ih => exact ih (entries.eraseIf (·.expiredAt now) key)

/-- What an event does to a table that nothing is purged from. -/
def keep (event : Event) (table : Table Entry) : Table Entry :=
  match event with
  | .store key entry => table.insert key entry
  | .delete key => table.erase key
  | .clear => .empty
  | _ => table

def unpurged (course : Course) : Table Entry :=
  course.foldl (fun table (_, event) => keep event table) .empty

def Onward (times : List Instant) : Prop :=
  times.Pairwise fun earlier later => later.before earlier = false

/-- Under every key the memory has what the full table has, or lacks an entry that is expired. -/
structure Shadows (now : Instant) (memory : Memory) (full : Table Entry) : Prop where
  distinct : memory.entries.Distinct
  covers : ∀ key, memory.entries.get? key = full.get? key ∨
    memory.entries.get? key = none ∧ ∃ entry, full.get? key = some entry ∧
      entry.expiredAt now = true

theorem empty_shadows (now : Instant) : Shadows now .empty .empty where
  distinct := Table.empty_distinct
  covers _ := .inl rfl

/-- What is expired stays expired. -/
theorem Shadows.later {now later : Instant} {memory : Memory} {full : Table Entry}
    (shadows : Shadows now memory full) (onward : later.before now = false) :
    Shadows later memory full where
  distinct := shadows.distinct
  covers key := by
    rcases shadows.covers key with same | ⟨absent, entry, held, expired⟩
    · exact .inl same
    · exact .inr ⟨absent, entry, held, Instant.before_of_not_before expired onward⟩

/-- Taking expired entries away keeps a shadow a shadow. -/
theorem Shadows.filtered {now : Instant} {memory after : Memory} {full : Table Entry}
    (shadows : Shadows now memory full) (distinct : after.entries.Distinct)
    (fewer : ∀ key, after.entries.get? key = memory.entries.get? key ∨
      after.entries.get? key = (memory.entries.get? key).filter fun entry => !entry.expiredAt now) :
    Shadows now after full where
  distinct := distinct
  covers key := by
    rcases fewer key with same | filtered
    · rw [same]; exact shadows.covers key
    · rw [filtered]
      cases held : memory.entries.get? key with
      | none => simpa [held] using shadows.covers key
      | some entry =>
          have full : full.get? key = some entry := by
            rcases shadows.covers key with same | ⟨absent, _⟩
            · rw [← same, held]
            · rw [held] at absent; contradiction
          cases expired : entry.expiredAt now with
          | false => exact .inl (by simp [full, expired, Option.filter])
          | true => exact .inr ⟨by simp [expired, Option.filter], entry, full, expired⟩

theorem Shadows.after {now : Instant} {memory : Memory} {full : Table Entry}
    (shadows : Shadows now memory full) (event : Event) :
    Shadows now (memory.after now event) (keep event full) := by
  cases event with
  | store key entry =>
      refine ⟨Table.insert_distinct shadows.distinct key entry, fun other => ?_⟩
      simp only [Memory.after, Memory.store, keep, Table.get?_insert]
      by_cases same : other = key
      · simp [same]
      · simpa [same] using shadows.covers other
  | retrieve key =>
      have same : (memory.retrieve now key).2.entries = memory.entries := by
        unfold retrieve
        split
        · rfl
        · split <;> rfl
      refine shadows.filtered ?_ fun other => .inl ?_
      · simp only [Memory.after, same]; exact shadows.distinct
      · simp only [Memory.after, same]
  | delete key =>
      refine ⟨Table.erase_distinct shadows.distinct key, fun other => ?_⟩
      simp only [Memory.after, Memory.delete, keep, Table.get?_erase]
      by_cases same : other = key
      · simp [same]
      · simpa [same] using shadows.covers other
  | clear => exact ⟨Table.empty_distinct, fun _ => .inl rfl⟩
  | sweep =>
      exact shadows.filtered (Table.filter_distinct shadows.distinct _)
        fun other => .inr (Table.get?_filter shadows.distinct _ other)
  | purge place =>
      simp only [Memory.after, runPurge, keep]
      split
      · exact shadows
      · next key _ =>
          refine shadows.filtered (Table.eraseIf_distinct shadows.distinct _ key) fun other => ?_
          simp only [purgeKey, Table.get?_eraseIf]
          by_cases same : other = key
          · exact .inr (by simp [same])
          · exact .inl (by simp [same])

/-- The invariant of a run, at its end and until the next event. -/
theorem run_shadows (course : Course) (now : Instant)
    (onward : Onward (course.map Prod.fst ++ [now])) :
    Shadows now (run course .empty) (unpurged course) := by
  induction course using List.reverseRecOn generalizing now with
  | nil => exact empty_shadows now
  | append_singleton course last ih =>
      obtain ⟨time, event⟩ := last
      rw [List.map_append, List.map_singleton] at onward
      obtain ⟨sofar, _, upToNow⟩ := List.pairwise_append.mp onward
      have later : now.before time = false := upToNow time (by simp) now (by simp)
      have next := ((ih time sofar).after event).later later
      simpa only [run, unpurged, List.foldl_append, List.foldl_cons, List.foldl_nil] using next

theorem retrieve_found (now : Instant) (key : String) (memory : Memory) :
    (memory.retrieve now key).1 = match memory.entries.get? key with
      | none => .miss
      | some entry => if entry.expiredAt now then .expired else .hit entry := by
  unfold retrieve
  cases memory.entries.get? key with
  | none => rfl
  | some entry => cases expired : entry.expiredAt now <;> simp [expired]

/-- After any run, a read hits exactly when the table that nothing is purged from holds an entry that
is not expired then, and shows that entry. Where that table holds nothing, the read misses. -/
theorem purges_hide_no_hit (course : Course) (now : Instant)
    (onward : Onward (course.map Prod.fst ++ [now])) (key : String) :
    let found := ((run course .empty).retrieve now key).1
    (∀ entry, found = .hit entry ↔
        (unpurged course).get? key = some entry ∧ entry.expiredAt now = false) ∧
      ((unpurged course).get? key = none → found = .miss) := by
  intro found
  have covers := (run_shadows course now onward).covers key
  simp only [found, retrieve_found]
  cases held : (run course .empty).entries.get? key with
  | none =>
      rcases covers with same | ⟨_, entry, full, expired⟩
      · rw [held] at same
        simp [← same]
      · simp [full, expired]
  | some entry =>
      have full : (unpurged course).get? key = some entry := by
        rcases covers with same | ⟨absent, _⟩
        · rw [← same, held]
        · rw [held] at absent; contradiction
      cases expired : entry.expiredAt now with
      | true => simp [full, expired]
      | false =>
          simp only [full, expired, Bool.false_eq_true, if_false, Option.some.injEq,
            Lookup.hit.injEq]
          refine ⟨fun other => ⟨fun same => ⟨same, same ▸ expired⟩, And.left⟩, ?_⟩
          simp

-- A rewrite between an expired read and its purge.
def rewritten : Course :=
  let entry (payload : Bytes) (expires : Int) : Entry :=
    ⟨payload, ⟨⟨0, 0⟩, ⟨expires, 0⟩, 1, false, .binary⟩⟩
  [(⟨1, 0⟩, .store "k" (entry [1] 5)), (⟨6, 0⟩, .retrieve "k"), (⟨6, 0⟩, .retrieve "k"),
    (⟨7, 0⟩, .store "k" (entry [2] 9)), (⟨8, 0⟩, .purge 1), (⟨8, 0⟩, .sweep),
    (⟨8, 500⟩, .purge 0)]

theorem purges_hide_no_hit_rewritten :
    Onward (rewritten.map Prod.fst ++ [⟨9, 0⟩]) ∧
      ((run rewritten .empty).retrieve ⟨9, 0⟩ "k").1 =
        .hit ⟨[2], ⟨⟨0, 0⟩, ⟨9, 0⟩, 1, false, .binary⟩⟩ := by
  have onward : Onward (rewritten.map Prod.fst ++ [⟨9, 0⟩]) := by
    unfold Onward
    decide
  exact ⟨onward, ((purges_hide_no_hit rewritten ⟨9, 0⟩ onward "k").1 _).mpr ⟨rfl, rfl⟩⟩

end RingCache.Memory
