import RingCache.Proofs.EnvelopeProviders

/-!
The three kinds of storage are interchangeable. As long as every purge is done before the next
operation, each of them answers like one map of entries that drops an expired entry when it is read,
whatever the shape of the cluster. Where entries are kept as envelopes they are the ones that the
envelopes tell, which makes a difference only to a leap second inside a minute.
-/

namespace RingCache

/-- An operation, the time at which it runs, and the time at which the purges that it left have
run. -/
structure Step where
  now : Time.Instant
  settled : Time.Instant
  operation : Operation

namespace Step

structure Proper (step : Step) : Prop where
  onward : step.settled.before step.now = false
  operation : step.operation.Proper

def Exact (step : Step) : Prop :=
  ∀ key entry, step.operation = .store key entry → entry.Exact

def told (step : Step) : Step := { step with operation := step.operation.told }

theorem Exact.told_eq {step : Step} (exact : step.Exact) : step.told = step := by
  obtain ⟨now, settled, operation⟩ := step
  cases operation with
  | store key entry => rw [told, Operation.told, (exact key entry rfl).told_eq]
  | _ => rfl

/-- The step may change, or tell, what is under a key. -/
def concerns (key : String) (step : Step) : Bool :=
  match step.operation with
  | .store other _ => other == key
  | .retrieve other => other == key
  | .delete other => other == key
  | .clear => true

theorem concerns_told (key : String) (step : Step) : step.told.concerns key = step.concerns key := by
  obtain ⟨now, settled, operation⟩ := step
  cases operation <;> rfl

end Step

def trace {σ : Type} (act : Step → σ → Answer × σ) : List Step → σ → List (Step × Answer)
  | [], _ => []
  | step :: rest, state =>
      let (answer, state) := act step state
      (step, answer) :: trace act rest state

/-- Machines that answer every proper step alike and stay related have one trace. -/
theorem trace_eq {σ τ : Type} {act : Step → σ → Answer × σ} {reference : Step → τ → Answer × τ}
    (Related : σ → τ → Prop)
    (simulates : ∀ step left right, step.Proper → Related left right →
      (act step left).1 = (reference step right).1 ∧
        Related (act step left).2 (reference step right).2)
    (course : List Step) (left : σ) (right : τ) (proper : ∀ step ∈ course, step.Proper)
    (related : Related left right) : trace act course left = trace reference course right := by
  induction course generalizing left right with
  | nil => rfl
  | cons step rest ih =>
      rw [List.forall_mem_cons] at proper
      obtain ⟨same, next⟩ := simulates step left right proper.1 related
      simp only [trace]
      rw [same, ih _ _ proper.2 next]

def Storage.act (step : Step) (storage : Storage) : Answer × Storage :=
  (step.operation.run Storage.provider step.now storage).map id (·.settle step.settled)

abbrev Entries := String → Option Entry

namespace Entries

def act (step : Step) (entries : Entries) : Answer × Entries :=
  match step.operation with
  | .store key entry => (.done (.ok ()), Function.update entries key (some entry))
  | .retrieve key => match entries key with
    | none => (.found (.ok .miss), entries)
    | some entry =>
        if entry.expiredAt step.now then
          (.found (.ok .expired), Function.update entries key none)
        else (.found (.ok (.hit entry)), entries)
  | .delete key => (.done (.ok ()), Function.update entries key none)
  | .clear => (.done (.ok ()), fun _ => none)

def Sound (entries : Entries) : Prop :=
  ∀ key entry, entries key = some entry → entry.Exact

theorem Sound.update {entries : Entries} (sound : entries.Sound) (key : String)
    (held : Option Entry) (new : ∀ entry, held = some entry → entry.Exact) :
    Sound (Function.update entries key held) := by
  intro other entry found
  rw [Function.update_apply] at found
  split at found
  · exact new entry found
  · exact sound other entry found

/-- A step that does not concern a key leaves what is under it. -/
theorem act_other (step : Step) (entries : Entries) (key : String)
    (other : step.concerns key = false) : (act step entries).2 key = entries key := by
  obtain ⟨now, settled, operation⟩ := step
  cases operation with
  | store name entry =>
      exact Function.update_of_ne (Ne.symm (beq_eq_false_iff_ne.mp other)) _ entries
  | retrieve name =>
      simp only [act]
      split
      · rfl
      · split
        · exact Function.update_of_ne (Ne.symm (beq_eq_false_iff_ne.mp other)) none entries
        · rfl
  | delete name =>
      exact Function.update_of_ne (Ne.symm (beq_eq_false_iff_ne.mp other)) none entries
  | clear => simp [Step.concerns] at other

/-- A step that concerns a key is decided by what is under that key. -/
theorem act_same (step : Step) (left right : Entries) (key : String)
    (concerned : step.concerns key = true) (same : left key = right key) :
    (act step left).1 = (act step right).1 ∧ (act step left).2 key = (act step right).2 key := by
  obtain ⟨now, settled, operation⟩ := step
  cases operation with
  | store name entry => simp_all [act, Step.concerns]
  | retrieve name =>
      have named : name = key := by simpa [Step.concerns] using concerned
      subst named
      simp only [act, ← same]
      cases held : left name with
      | none => simp [held, ← same]
      | some entry =>
          dsimp only
          split
          · simp
          · simp [same]
  | delete name => simp_all [act, Step.concerns]
  | clear => simp [act]

/-- Operations on other keys make no difference, whatever is heard of a step. -/
theorem trace_concerning (hear : Step → Step)
    (hears : ∀ step key, (hear step).concerns key = step.concerns key) (course : List Step)
    (key : String) (left right : Entries) (same : left key = right key) :
    (trace (fun step => act (hear step)) course left).filter
        (fun moment => moment.1.concerns key) =
      trace (fun step => act (hear step)) (course.filter (Step.concerns key)) right := by
  induction course generalizing left right with
  | nil => rfl
  | cons step rest ih =>
      cases concerned : step.concerns key with
      | false =>
          simp only [trace, List.filter_cons, concerned, Bool.false_eq_true, if_false]
          exact ih _ _ ((act_other (hear step) left key ((hears step key).trans concerned)).trans same)
      | true =>
          obtain ⟨answer, next⟩ :=
            act_same (hear step) left right key ((hears step key).trans concerned) same
          simp only [trace, List.filter_cons, concerned, if_true]
          rw [answer, ih _ _ next]

end Entries

namespace Memory

/-- The memory holds these entries, and no purge is left. -/
def Shows (memory : Memory) (entries : Entries) : Prop :=
  memory.pending = [] ∧ ∀ key, memory.entries.get? key = entries key

def act (step : Step) (memory : Memory) : Answer × Memory :=
  (step.operation.run provider step.now memory).map id (·.settle step.settled)

theorem settle_shows {memory : Memory} {entries : Entries} (now : Time.Instant)
    (shows : memory.Shows entries) : (memory.settle now).Shows entries := by
  obtain ⟨idle, held⟩ := shows
  simp only [settle, idle, List.foldl_nil]
  exact ⟨rfl, held⟩

theorem act_shows (step : Step) (memory : Memory) (entries : Entries) (proper : step.Proper)
    (shows : memory.Shows entries) :
    (memory.act step).1 = (entries.act step).1 ∧
      (memory.act step).2.Shows (entries.act step).2 := by
  obtain ⟨now, settled, operation⟩ := step
  obtain ⟨idle, held⟩ := shows
  cases operation with
  | store key entry =>
      refine ⟨rfl, settle_shows settled ⟨idle, fun other => ?_⟩⟩
      exact (Table.get?_insert ..).trans (by rw [held]; exact (Function.update_apply ..).symm)
  | retrieve key =>
      have answered : memory.act ⟨now, settled, .retrieve key⟩ =
          (.found (.ok (memory.retrieve now key).1), (memory.retrieve now key).2.settle settled) :=
        rfl
      rw [answered, retrieve, held key]
      simp only [Entries.act]
      cases found : entries key with
      | none => exact ⟨rfl, settle_shows settled ⟨idle, held⟩⟩
      | some entry =>
          dsimp only
          cases expired : entry.expiredAt now with
          | false => exact ⟨rfl, settle_shows settled ⟨idle, held⟩⟩
          | true =>
              refine ⟨rfl, ?_⟩
              -- The purge looks again, later, and finds the entry still expired.
              have still := Time.Instant.before_of_not_before expired proper.onward
              simp only [if_true, idle, List.nil_append, settle, List.foldl_cons, List.foldl_nil]
              refine ⟨rfl, fun other => ?_⟩
              simp only [purgeKey, Table.get?_eraseIf, held, found, Function.update_apply]
              split
              · simp [Option.filter, Entry.expiredAt, Metadata.expiredAt, still]
              · rfl
  | delete key =>
      refine ⟨rfl, settle_shows settled ⟨idle, fun other => ?_⟩⟩
      exact (Table.get?_erase ..).trans (by rw [held]; exact (Function.update_apply ..).symm)
  | clear => exact ⟨rfl, settle_shows settled ⟨idle, fun _ => rfl⟩⟩

end Memory

namespace Enveloped

variable {σ : Type} (view : Enveloped σ)

def settle (now : Time.Instant) (state : σ) : σ :=
  Purge.runAll view.access now (view.pending state) (view.leave [] state)

def act (step : Step) (state : σ) : Answer × σ :=
  (step.operation.run view.provider step.now state).map id (view.settle step.settled)

def shelf (entries : Entries) : Shelf := fun key => (entries key).map Envelope.encode

/-- The envelopes of these entries are held, and no purge is left. -/
structure Shows (state : σ) (entries : Entries) : Prop where
  pending : view.pending state = []
  holds : view.Holds state (shelf entries)
  sound : entries.Sound

variable {view} {state : σ}

/-- Settling after a read of a key drops what is under the key if the read found it expired. -/
theorem settle_reread {shelf : Shelf} (holds : view.Holds state shelf) (now : Time.Instant)
    (key : String) (keyed : key ≠ "") (left : view.pending state = [.reread key]) :
    view.pending (view.settle now state) = [] ∧ view.Holds (view.settle now state)
      (if Envelope.stillExpired now (shelf key) then Function.update shelf key none
        else shelf) := by
  obtain ⟨empty, idle⟩ := view.left [] holds
  obtain ⟨more, after, still⟩ := view.purge_step empty now (.reread key) keyed
  simp only [settle, left, Purge.runAll, List.foldl_cons, List.foldl_nil, Purge.run_eq, more,
    Purge.next]
  cases expired : Envelope.stillExpired now (shelf key) with
  | false => exact ⟨still.trans idle, after⟩
  | true =>
      obtain ⟨_, removed, done⟩ := view.purge_step after now (.remove key) keyed
      exact ⟨done.trans (still.trans idle), removed⟩

theorem settle_idle {shelf : Shelf} (holds : view.Holds state shelf) (now : Time.Instant)
    (left : view.pending state = []) :
    view.pending (view.settle now state) = [] ∧ view.Holds (view.settle now state) shelf := by
  simp only [settle, left, Purge.runAll, List.foldl_nil]
  exact (view.left [] holds).symm

theorem shelf_update (entries : Entries) (key : String) (entry : Option Entry) :
    shelf (Function.update entries key entry) =
      Function.update (shelf entries) key (entry.map Envelope.encode) := by
  funext other
  simp only [shelf, Function.update_apply]
  split <;> rfl

/-- The map after an operation that is not a read. -/
theorem act_idle (operation : Operation) (now settled : Time.Instant) {entries : Entries}
    (proper : operation.Proper) (shows : view.Shows state entries)
    (quiet : operation.purges now (shelf entries) = []) :
    (view.act ⟨now, settled, operation⟩ state).1 = operation.answer now (shelf entries) ∧
      view.pending (view.act ⟨now, settled, operation⟩ state).2 = [] ∧
      view.Holds (view.act ⟨now, settled, operation⟩ state).2
        (operation.effect (shelf entries)) := by
  obtain ⟨answer, after, left⟩ := view.run shows.holds now operation proper.keyed
  rw [shows.pending, quiet, List.nil_append] at left
  exact ⟨answer, settle_idle after settled left⟩

theorem retrieve_shows (key : String) (now settled : Time.Instant) {entries : Entries}
    (keyed : key ≠ "") (onward : settled.before now = false) (shows : view.Shows state entries) :
    let step : Step := ⟨now, settled, .retrieve key⟩
    (view.act step state).1 = (entries.act step).1 ∧
      view.Shows (view.act step state).2 (entries.act step).2 := by
  intro step
  simp only [Entries.act, step]
  cases found : entries key with
  | none =>
      have absent : Envelope.lookup now (shelf entries key) = .ok .miss := by
        rw [shelf, found]
        rfl
      obtain ⟨answer, pending, holds⟩ := act_idle (.retrieve key) now settled keyed shows
        (congrArg (Lookup.purges key) absent)
      exact ⟨answer.trans (congrArg Answer.found absent), pending, holds, shows.sound⟩
  | some entry =>
      have sound := shows.sound key entry found
      have held : shelf entries key = some (Envelope.encode entry) := by
        rw [shelf, found]
        rfl
      have tells := Envelope.lookup_encode now entry sound
      rw [← held] at tells
      dsimp only
      cases expired : entry.expiredAt now with
      | false =>
          simp only [expired, Bool.false_eq_true, if_false] at tells ⊢
          obtain ⟨answer, pending, holds⟩ := act_idle (.retrieve key) now settled keyed shows
            (congrArg (Lookup.purges key) tells)
          exact ⟨answer.trans (congrArg Answer.found tells), pending, holds, shows.sound⟩
      | true =>
          simp only [expired, if_true] at tells ⊢
          obtain ⟨answer, after, left⟩ := view.run shows.holds now (.retrieve key) keyed
          rw [shows.pending, List.nil_append] at left
          obtain ⟨pending, holds⟩ := settle_reread after settled key keyed
            (left.trans (congrArg (Lookup.purges key) tells))
          -- The purge looks again, later, and finds the entry still expired.
          have still : Envelope.stillExpired settled (shelf entries key) = true := by
            rw [held, Envelope.stillExpired_encode settled entry sound]
            exact Time.Instant.before_of_not_before expired onward
          rw [Operation.effect, if_pos still] at holds
          exact ⟨answer.trans (congrArg Answer.found tells), pending,
            (shelf_update entries key none).symm ▸ holds, shows.sound.update key none nofun⟩

theorem store_shows (key : String) (entry : Entry) (now settled : Time.Instant)
    {entries : Entries} (keyed : key ≠ "") (held : entry.Representable)
    (shows : view.Shows state entries) :
    let step : Step := ⟨now, settled, .store key entry⟩
    (view.act step state).1 = (entries.act step.told).1 ∧
      view.Shows (view.act step state).2 (entries.act step.told).2 := by
  obtain ⟨answer, pending, holds⟩ :=
    act_idle (.store key entry) now settled ⟨keyed, held⟩ shows rfl
  have exact : ∀ other, some entry.told = some other → other.Exact := fun _ same =>
    Option.some.inj same ▸ held.told_exact
  refine ⟨answer, pending, ?_, shows.sound.update key (some entry.told) exact⟩
  rw [Operation.effect, ← Envelope.encode_told entry held] at holds
  exact (shelf_update entries key (some entry.told)).symm ▸ holds

theorem act_shows (step : Step) (state : σ) (entries : Entries) (proper : step.Proper)
    (shows : view.Shows state entries) :
    (view.act step state).1 = (entries.act step.told).1 ∧
      view.Shows (view.act step state).2 (entries.act step.told).2 := by
  obtain ⟨now, settled, operation⟩ := step
  obtain ⟨onward, proper⟩ := proper
  dsimp only at onward proper
  cases operation with
  | store key entry => exact store_shows key entry now settled proper.1 proper.2 shows
  | retrieve key => exact retrieve_shows key now settled proper onward shows
  | delete key =>
      obtain ⟨answer, pending, holds⟩ := act_idle _ now settled proper shows rfl
      exact ⟨answer, pending, (shelf_update entries key none).symm ▸ holds,
        shows.sound.update key none nofun⟩
  | clear =>
      obtain ⟨answer, pending, holds⟩ := act_idle _ now settled proper shows rfl
      exact ⟨answer, pending, holds, fun _ _ found => nomatch found⟩

end Enveloped

namespace Storage

open Cluster

/-- A storage without entries: in process, at one node, or in a cluster of healthy nodes, over stores
that are empty and serve every call. Nodes may share ids and stores. -/
inductive Fresh : Storage → Prop where
  | memory : Fresh (.memory .empty)
  | remote (name : String) (fleet : Fleet) (serving : (fleet.peer name).Serving)
      (empty : fleet.tableOf name = .empty) : Fresh (.remote ⟨name, fleet, []⟩)
  | distributed (nodes : List Node) (options : Options) (fleet : Fleet) (peopled : nodes ≠ [])
      (healthy : ∀ node ∈ nodes, node.healthy = true)
      (serving : ∀ node ∈ nodes, (fleet.peer node.store).Serving)
      (empty : ∀ node ∈ nodes, fleet.tableOf node.store = .empty) :
      Fresh (.distributed ⟨.new nodes options, fleet, []⟩)

def Shows (entries : Entries) : Storage → Prop
  | .memory state => state.Shows entries
  | .remote state => Remote.enveloped.Shows state entries
  | .distributed state => Distributed.enveloped.Shows state entries

theorem fresh_shows (storage : Storage) (fresh : storage.Fresh) :
    storage.Shows fun _ => none := by
  cases fresh with
  | memory => exact ⟨rfl, fun _ => rfl⟩
  | remote name fleet serving empty =>
      refine ⟨rfl, ⟨serving, fun key => ?_⟩, fun _ _ found => nomatch found⟩
      exact congrArg (Table.get? · key) empty
  | distributed nodes options fleet some healthy serving empty =>
      refine ⟨rfl, ⟨new_serving nodes options fleet some healthy serving, ?_⟩,
        fun _ _ found => nomatch found⟩
      intro key primary selected
      exact congrArg (Table.get? · key)
        (empty primary ((Coordinator.new nodes options).registry.select_mem key primary selected))

/-- What a storage hears of a step: entries in process are kept as they are, and others are told by
their envelopes. -/
def hear : Storage → Step → Step
  | .memory _ => id
  | .remote _ => Step.told
  | .distributed _ => Step.told

theorem hear_concerns (storage : Storage) (step : Step) (key : String) :
    (storage.hear step).concerns key = step.concerns key := by
  cases storage with
  | memory => rfl
  | _ => exact step.concerns_told key

theorem hear_exact (storage : Storage) (step : Step) (exact : step.Exact) :
    storage.hear step = step := by
  cases storage with
  | memory => rfl
  | _ => exact exact.told_eq

theorem act_hear (step : Step) (storage : Storage) : (storage.act step).2.hear = storage.hear := by
  obtain ⟨now, settled, operation⟩ := step
  cases storage <;> cases operation <;> rfl

theorem act_shows (step : Step) (storage : Storage) (entries : Entries) (proper : step.Proper)
    (shows : storage.Shows entries) :
    (storage.act step).1 = (entries.act (storage.hear step)).1 ∧
      (storage.act step).2.Shows (entries.act (storage.hear step)).2 := by
  rw [act, Operation.run_storage]
  cases storage with
  | memory state =>
      exact Memory.act_shows step state entries proper shows
  | remote state =>
      exact Enveloped.act_shows step state entries proper shows
  | distributed state =>
      exact Enveloped.act_shows step state entries proper shows

theorem trace_hear (storage : Storage) (fresh : storage.Fresh) (course : List Step)
    (proper : ∀ step ∈ course, step.Proper) :
    trace act course storage =
      trace (fun step => Entries.act (storage.hear step)) course fun _ => none := by
  refine trace_eq (fun state entries => state.Shows entries ∧ state.hear = storage.hear)
    (fun step state entries proper related => ?_) course storage _ proper
    ⟨storage.fresh_shows fresh, rfl⟩
  obtain ⟨shows, hears⟩ := related
  obtain ⟨answer, next⟩ := state.act_shows step entries proper shows
  rw [hears] at answer next
  exact ⟨answer, next, (state.act_hear step).trans hears⟩

theorem trace_exact (course : List Step) (storage : Storage) (entries : Entries)
    (exact : ∀ step ∈ course, step.Exact) :
    trace (fun step => Entries.act (storage.hear step)) course entries =
      trace Entries.act course entries := by
  induction course generalizing entries with
  | nil => rfl
  | cons step rest ih =>
      rw [List.forall_mem_cons] at exact
      simp only [trace, storage.hear_exact step exact.1, ih _ exact.2]

/-- A storage that was empty at first answers every proper course as the map of entries does that hears
of the same steps. Of entries that are read back from their envelopes all storages hear the same. The
operations that do not concern a key make no difference to the others. -/
theorem answers_like_map (storage : Storage) (fresh : storage.Fresh) (course : List Step)
    (proper : ∀ step ∈ course, step.Proper) :
    trace act course storage =
        trace (fun step => Entries.act (storage.hear step)) course (fun _ => none) ∧
      ((∀ step ∈ course, step.Exact) →
        trace act course storage = trace Entries.act course (fun _ => none)) ∧
      ∀ key, (trace act course storage).filter (fun moment => moment.1.concerns key) =
        trace act (course.filter (Step.concerns key)) storage := by
  have like := storage.trace_hear fresh course proper
  refine ⟨like, fun exact => like.trans (trace_exact course storage _ exact), fun key => ?_⟩
  rw [like, Entries.trace_concerning _ storage.hear_concerns course key _ _ rfl,
    storage.trace_hear fresh _ fun step member => proper step (List.mem_filter.mp member).1]

-- Two entries of a cluster that share their id and their store, and an entry that expires.
def twins : List Node := List.replicate 2 (.fresh ⟨"a"⟩ "test://a" "a")

def shortLived : Entry := ⟨[1], ⟨⟨0, 0⟩, ⟨5, 0⟩, 1, false, .binary⟩⟩

def lapse : List Step :=
  [⟨⟨1, 0⟩, ⟨1, 0⟩, .store "k" shortLived⟩, ⟨⟨5, 0⟩, ⟨5, 0⟩, .retrieve "k"⟩,
    ⟨⟨5, 1⟩, ⟨6, 0⟩, .retrieve "k"⟩, ⟨⟨6, 0⟩, ⟨6, 0⟩, .retrieve "k"⟩]

theorem answers_like_map_lapse :
    Fresh (.distributed ⟨.new twins .standard, .empty, []⟩) ∧
      (∀ step ∈ lapse, step.Proper) ∧ (∀ step ∈ lapse, step.Exact) ∧
      (trace act lapse (.distributed ⟨.new twins .standard, .empty, []⟩)).map Prod.snd =
        [.done (.ok ()), .found (.ok (.hit shortLived)), .found (.ok .expired),
          .found (.ok .miss)] := by
  have fresh : Fresh (.distributed ⟨.new twins .standard, .empty, []⟩) :=
    .distributed twins .standard .empty (by decide) (by decide) (fun _ _ => Cluster.Peer.fresh_serving _)
      fun _ _ => rfl
  have sound : shortLived.Exact := ⟨by decide, by decide, by decide⟩
  have keyed : "k" ≠ "" := by decide
  have proper : ∀ step ∈ lapse, step.Proper := by
    simp only [lapse, List.forall_mem_cons]
    exact ⟨⟨rfl, keyed, sound.representable⟩, ⟨rfl, keyed⟩, ⟨rfl, keyed⟩, ⟨rfl, keyed⟩, nofun⟩
  have exact : ∀ step ∈ lapse, step.Exact := by
    simp only [lapse, List.forall_mem_cons]
    refine ⟨fun key entry same => ?_, nofun, nofun, nofun, nofun⟩
    rw [← (Operation.store.inj same).2]
    exact sound
  obtain ⟨-, like, -⟩ := answers_like_map _ fresh lapse proper
  refine ⟨fresh, proper, exact, ?_⟩
  rw [like exact]
  rfl

-- A leap second inside a minute is found as it was stored in process, and as the second after it at
-- a node. The longest span that there is has no deadline.
def oddly : List Step :=
  [⟨⟨1, 0⟩, ⟨1, 0⟩, .store "k" Envelope.oddEntry⟩, ⟨⟨1, 0⟩, ⟨1, 0⟩, .retrieve "k"⟩]

theorem odd_entry_apart :
    (∀ step ∈ oddly, step.Proper) ∧ Fresh (.memory .empty) ∧ Fresh (.remote ⟨"r", .empty, []⟩) ∧
      (trace act oddly (.memory .empty)).map Prod.snd =
        [.done (.ok ()), .found (.ok (.hit Envelope.oddEntry))] ∧
      (trace act oddly (.remote ⟨"r", .empty, []⟩)).map Prod.snd =
        [.done (.ok ()), .found (.ok (.hit Envelope.oddEntry.told))] ∧
      Envelope.oddEntry.told ≠ Envelope.oddEntry ∧
      Timeout.ofSpan? ⟨18446744073709551615, 999999999⟩ = none := by
  have keyed : "k" ≠ "" := by decide
  have proper : ∀ step ∈ oddly, step.Proper := by
    simp only [oddly, List.forall_mem_cons]
    exact ⟨⟨rfl, keyed, Envelope.oddEntry_representable⟩, ⟨rfl, keyed⟩, nofun⟩
  have remote : Fresh (.remote ⟨"r", .empty, []⟩) :=
    .remote "r" .empty (Cluster.Peer.fresh_serving _) rfl
  refine ⟨proper, .memory, remote, ?_, ?_, by decide, rfl⟩
  · rw [trace_hear _ .memory oddly proper]
    rfl
  · rw [trace_hear _ remote oddly proper]
    rfl

end Storage

end RingCache
