import RingCache.Proofs.EnvelopeProviders

/-!
Purges of stored envelopes among the calls of a client. A purge reads its key again and then deletes
it, and the client may call in between. What is stored survives all purges that have yet to look
again, because they find it fresh; a purge that has looked, and is left with its removal, takes away
whatever was stored since.
-/

namespace RingCache

inductive Turn where
  | client (operation : Operation)
  | purge (place : Nat)

namespace Turn

def Spares (key : String) : Turn → Prop
  | .client (.store other _) => other ≠ key
  | .client (.delete other) => other ≠ key
  | .client .clear => False
  | _ => True

def Proper : Turn → Prop
  | .client operation => operation.Proper
  | .purge _ => True

end Turn

def Purge.Spares (key : String) (purge : Purge) : Prop := purge ≠ .remove key ∧ purge.key ≠ ""

abbrev Turns := List (Time.Instant × Turn)

namespace Enveloped

variable {σ : Type} (view : Enveloped σ)

def turn (now : Time.Instant) : Turn → σ → σ
  | .client operation, state => (operation.run view.provider now state).2
  | .purge place, state => match (view.pending state)[place]? with
    | none => state
    | some purge =>
        let (left, after) := purge.step view.access now state
        view.leave ((view.pending after).eraseIdx place ++ left.toList) after

def play (turns : Turns) (state : σ) : σ :=
  turns.foldl (fun state (now, turn) => view.turn now turn state) state

theorem play_cons (now : Time.Instant) (turn : Turn) (rest : Turns) (state : σ) :
    view.play ((now, turn) :: rest) state = view.play rest (view.turn now turn state) := rfl

/-- As long as an entry is not expired and the client does not touch its key, the key is read as that
entry. -/
def Keeps (key : String) (entry : Entry) (state : σ) : Prop :=
  ∀ (turns : Turns) (now : Time.Instant),
    (∀ turn ∈ turns, turn.2.Proper ∧ turn.2.Spares key ∧ now.before turn.1 = false) →
    entry.expiredAt now = false →
    (view.provider.retrieve now key (view.play turns state)).1 = .ok (.hit entry)

variable {view} {key : String} {entry : Entry} {state : σ} {shelf : Shelf}

theorem turn_client (holds : view.Holds state shelf) (now : Time.Instant) (operation : Operation)
    (keyed : operation.Keyed) :
    view.Holds (view.turn now (.client operation) state) (operation.effect shelf) ∧
      view.pending (view.turn now (.client operation) state) =
        view.pending state ++ operation.purges now shelf := by
  obtain ⟨_, after, left⟩ := view.run holds now operation keyed
  exact ⟨after, left⟩

theorem turn_purge (holds : view.Holds state shelf) (now : Time.Instant) (place : Nat)
    (purge : Purge) (found : (view.pending state)[place]? = some purge) (keyed : purge.key ≠ "") :
    view.Holds (view.turn now (.purge place) state) (purge.effect shelf) ∧
      view.pending (view.turn now (.purge place) state) =
        (view.pending state).eraseIdx place ++ (purge.next now shelf).toList := by
  obtain ⟨next, after, left⟩ := view.purge_step holds now purge keyed
  simp only [turn, found]
  rw [next, left]
  exact view.left _ after

variable (view) in
/-- The key holds the entry, and no purge has only its removal left. -/
structure Safe (key : String) (entry : Entry) (state : σ) (shelf : Shelf) : Prop where
  holds : view.Holds state shelf
  stored : shelf key = some (Envelope.encode entry)
  spared : ∀ purge ∈ view.pending state, purge.Spares key

theorem store_safe (entry : Entry) (holds : view.Holds state shelf)
    (keyed : ∀ purge ∈ view.pending state, purge.key ≠ "")
    (unremoved : Purge.remove key ∉ view.pending state) :
    view.Safe key entry (view.provider.store key entry state).2
      (Function.update shelf key (some (Envelope.encode entry))) := by
  obtain ⟨_, after, left⟩ := view.store key entry holds
  refine ⟨after, Function.update_self key _ shelf, ?_⟩
  intro purge member
  rw [left] at member
  exact ⟨fun same => unremoved (same ▸ member), keyed purge member⟩

theorem Safe.told (safe : view.Safe key entry state shelf) (held : entry.Representable) :
    view.Safe key entry.told state shelf :=
  ⟨safe.holds, by rw [safe.stored, Envelope.encode_told entry held], safe.spared⟩

theorem Safe.client (safe : view.Safe key entry state shelf) (now : Time.Instant)
    (operation : Operation) (keyed : operation.Keyed)
    (spares : (Turn.client operation).Spares key) :
    view.Safe key entry (view.turn now (.client operation) state) (operation.effect shelf) := by
  obtain ⟨after, left⟩ := turn_client safe.holds now operation keyed
  refine ⟨after, ?_, ?_⟩
  · cases operation with
    | store other stored => exact (Function.update_of_ne (Ne.symm spares) _ shelf).trans safe.stored
    | retrieve other => exact safe.stored
    | delete other => exact (Function.update_of_ne (Ne.symm spares) _ shelf).trans safe.stored
    | clear => exact absurd spares id
  · intro purge member
    rcases List.mem_append.mp (left ▸ member) with old | fresh
    · exact safe.spared purge old
    · cases operation with
      | retrieve other =>
          simp only [Operation.purges, Lookup.purges] at fresh
          split at fresh
          · rw [List.mem_singleton.mp fresh]
            exact ⟨nofun, keyed⟩
          · contradiction
      | _ => contradiction

/-- A purge that looks again while the entry is fresh finds it so. -/
theorem Safe.next (safe : view.Safe key entry state shelf) (sound : entry.Exact)
    (now : Time.Instant) (fresh : entry.expiredAt now = false) (purge more : Purge)
    (spared : purge.Spares key) (left : purge.next now shelf = some more) : more.Spares key := by
  cases purge with
  | remove name => contradiction
  | reread name =>
      obtain ⟨expired, removal⟩ := Option.ite_none_right_eq_some.mp left
      rw [← Option.some.inj removal]
      refine ⟨fun same => ?_, spared.2⟩
      rw [Purge.remove.inj same, safe.stored, Envelope.stillExpired_encode now entry sound,
        fresh] at expired
      contradiction

theorem Safe.purge (safe : view.Safe key entry state shelf) (sound : entry.Exact)
    (now : Time.Instant) (place : Nat) (fresh : entry.expiredAt now = false) :
    ∃ shelf, view.Safe key entry (view.turn now (.purge place) state) shelf := by
  cases found : (view.pending state)[place]? with
  | none =>
      refine ⟨shelf, ?_⟩
      simp only [turn, found]
      exact safe
  | some purge =>
      have spared := safe.spared purge (List.mem_of_getElem? found)
      obtain ⟨after, left⟩ := turn_purge safe.holds now place purge found spared.2
      refine ⟨purge.effect shelf, after, ?_, ?_⟩
      · cases purge with
        | reread name => exact safe.stored
        | remove name =>
            have apart : key ≠ name := fun same => spared.1 (congrArg Purge.remove same.symm)
            exact (Function.update_of_ne apart none shelf).trans safe.stored
      · intro other inside
        rcases List.mem_append.mp (left ▸ inside) with old | rest
        · exact safe.spared other (List.mem_of_mem_eraseIdx old)
        · exact safe.next sound now fresh purge other spared (Option.mem_toList.mp rest)

theorem Safe.retrieved (safe : view.Safe key entry state shelf) (sound : entry.Exact)
    (now : Time.Instant) : (view.provider.retrieve now key state).1 =
      .ok (if entry.expiredAt now then .expired else .hit entry) := by
  obtain ⟨found, _, _⟩ := view.retrieve now key safe.holds
  rw [found, safe.stored, Envelope.lookup_encode now entry sound]

theorem Safe.found (safe : view.Safe key entry state shelf) (sound : entry.Exact)
    (now : Time.Instant) (fresh : entry.expiredAt now = false) :
    (view.provider.retrieve now key state).1 = .ok (.hit entry) := by
  rw [safe.retrieved sound now, fresh]
  rfl

/-- The invariant of a run of turns at which the entry is fresh. -/
theorem Safe.play (turns : Turns) (safe : view.Safe key entry state shelf)
    (sound : entry.Exact)
    (each : ∀ turn ∈ turns, turn.2.Proper ∧ turn.2.Spares key ∧ entry.expiredAt turn.1 = false) :
    ∃ shelf, view.Safe key entry (view.play turns state) shelf := by
  induction turns generalizing state shelf with
  | nil => exact ⟨shelf, safe⟩
  | cons turn rest ih =>
      rw [List.forall_mem_cons] at each
      obtain ⟨⟨proper, spares, fresh⟩, later⟩ := each
      obtain ⟨time, turn⟩ := turn
      cases turn with
      | client operation => exact ih (safe.client time operation proper.keyed spares) later
      | purge place =>
          obtain ⟨_, next⟩ := safe.purge sound time place fresh
          exact ih next later

/-- An entry that is stored survives all purges exactly if none of them has only its removal left. -/
theorem keeps_iff (holds : view.Holds state shelf)
    (keyed : ∀ purge ∈ view.pending state, purge.key ≠ "") (named : key ≠ "")
    (held : entry.Representable) (now : Time.Instant)
    (fresh : entry.told.expiredAt now = false) :
    view.Keeps key entry.told (view.provider.store key entry state).2 ↔
      Purge.remove key ∉ view.pending state := by
  obtain ⟨_, after, left⟩ := view.store key entry holds
  constructor
  · intro keeps removal
    rw [← left] at removal
    obtain ⟨place, found⟩ := List.getElem?_of_mem removal
    -- The removal runs next, and nothing is left under the key.
    have lost := keeps [(now, .purge place)] now
      (by simp [Turn.Proper, Turn.Spares, Time.Instant.before]) fresh
    obtain ⟨removed, _⟩ := turn_purge after now place _ found named
    obtain ⟨missed, _, _⟩ := view.retrieve now key removed
    rw [play_cons, play, List.foldl_nil, missed, Purge.effect, Function.update_self] at lost
    cases lost
  · intro unremoved turns later each unexpired
    have safe := (store_safe entry holds keyed unremoved).told held
    obtain ⟨_, safe⟩ := safe.play turns held.told_exact fun turn member => by
      obtain ⟨proper, spares, onward⟩ := each turn member
      refine ⟨proper, spares, ?_⟩
      cases expired : entry.told.expiredAt turn.1 with
      | false => rfl
      | true => exact (Time.Instant.before_of_not_before expired onward).symm.trans unexpired
    exact safe.found held.told_exact later unexpired

/-- Every read of an expired entry opens the window: what is stored between the two calls of its purge
is gone after the second. -/
theorem removal_takes_rewrite (holds : view.Holds state shelf) (idle : view.pending state = [])
    (named : key ≠ "") (old renewed : Entry) (sound : old.Exact)
    (stored expired rewritten later : Time.Instant)
    (past : old.expiredAt expired = true) :
    let raced := view.play [(stored, .client (.store key old)), (expired, .client (.retrieve key)),
      (expired, .purge 0), (rewritten, .client (.store key renewed)), (rewritten, .purge 0)] state
    (view.provider.retrieve later key raced).1 = .ok .miss := by
  obtain ⟨first, quiet⟩ := turn_client holds stored (.store key old) named
  obtain ⟨second, one⟩ := turn_client first expired (.retrieve key) named
  have stale := Envelope.lookup_encode expired old sound
  have still := Envelope.stillExpired_encode expired old sound
  simp only [Operation.purges, Operation.effect, Function.update_self, stale, past, if_true,
    Lookup.purges, quiet, idle, List.append_nil, List.nil_append] at one second
  obtain ⟨third, removal⟩ := turn_purge second expired 0 (.reread key) (by rw [one]; rfl) named
  simp only [Purge.next, Purge.effect, Function.update_self, still, past, if_true, one] at removal third
  obtain ⟨fourth, same⟩ := turn_client third rewritten (.store key renewed) named
  rw [removal] at same
  obtain ⟨fifth, _⟩ := turn_purge fourth rewritten 0 (.remove key) (by rw [same]; rfl) named
  obtain ⟨found, _, _⟩ := view.retrieve later key fifth
  simp only [play, List.foldl_cons, List.foldl_nil]
  rw [found, Purge.effect, Function.update_self]
  rfl

end Enveloped

-- A call that is delayed at a node is overtaken by turns of the purges.
namespace Remote

theorem step_pending (remote : Remote) (now : Time.Instant) (purge : Purge)
    (pending : List Purge) :
    purge.step access now { remote with pending } =
      ((purge.step access now remote).1, { (purge.step access now remote).2 with pending }) := by
  cases purge with
  | reread key =>
      simp only [Purge.step, access]
      split <;> rfl
  | remove key => rfl

theorem stepAll_eq_play (now : Time.Instant) (purges left : List Purge) (remote : Remote) :
    enveloped.play (List.replicate purges.length (now, .purge 0))
        { remote with pending := purges ++ left } =
      let (more, remote) := Purge.stepAll access now purges remote
      { remote with pending := left ++ more } := by
  induction purges generalizing left remote with
  | nil => simp [Enveloped.play, Purge.stepAll]
  | cons purge rest ih =>
      have first : enveloped.turn now (.purge 0)
          { remote with pending := purge :: rest ++ left } =
          { (purge.step access now remote).2 with
            pending := rest ++ (left ++ (purge.step access now remote).1.toList) } := by
        have stepped := step_pending remote now purge (purge :: rest ++ left)
        simp only [Enveloped.turn, enveloped, List.cons_append, List.getElem?_cons_zero] at stepped ⊢
        rw [stepped]
        simp
      have later := ih (left ++ (purge.step access now remote).1.toList)
        (purge.step access now remote).2
      rw [List.length_cons, List.replicate_succ, Enveloped.play_cons, first]
      exact later.trans (by simp [Purge.stepAll])

theorem advance_eq_play (now : Time.Instant) (remote : Remote) :
    remote.advance now =
      enveloped.play (List.replicate remote.pending.length (now, .purge 0)) remote := by
  have played := stepAll_eq_play now remote.pending [] { remote with pending := [] }
  rw [List.append_nil] at played
  exact played.symm

end Remote

open Cluster

/-- At one node or in a cluster of healthy nodes, over stores that serve every call, an entry that was
stored while fresh survives the purges of earlier reads, as its envelope tells it, exactly if none of
them has found its key expired already and is left with the removal. -/
theorem rewrite_survives_iff (key : String) (entry : Entry) (named : key ≠ "")
    (held : entry.Representable) (now : Time.Instant) (fresh : entry.told.expiredAt now = false)
    (pending : List Purge) (keyed : ∀ purge ∈ pending, purge.key ≠ "") (fleet : Fleet) :
    (∀ name, (fleet.peer name).Serving →
        let stored := Remote.put key entry ⟨name, fleet, pending⟩
        stored.1 = .ok () →
          (Remote.enveloped.Keeps key entry.told stored.2 ↔ Purge.remove key ∉ pending)) ∧
      ∀ (nodes : List Node) (options : Options), (∀ node ∈ nodes, node.healthy = true) →
        (∀ node ∈ nodes, (fleet.peer node.store).Serving) →
          let stored := Distributed.put key entry ⟨.new nodes options, fleet, pending⟩
          stored.1 = .ok () →
            (Distributed.enveloped.Keeps key entry.told stored.2 ↔ Purge.remove key ∉ pending) := by
  constructor
  · intro name serving stored _
    have holds : Remote.enveloped.Holds ⟨name, fleet, pending⟩ (fleet.tableOf name).get? :=
      ⟨serving, fun _ => rfl⟩
    exact Enveloped.keeps_iff holds keyed named held now fresh
  · intro nodes options healthy serving stored done
    by_cases empty : nodes = []
    · subst empty
      rw [Distributed.put_new_nil] at done
      contradiction
    · have holds := Distributed.new_holds nodes options fleet pending empty healthy serving
      exact Enveloped.keeps_iff holds keyed named held now fresh

-- A rewrite between the two calls of a purge.
def stale : Entry := ⟨[1], ⟨⟨0, 0⟩, ⟨5, 0⟩, 1, false, .binary⟩⟩

def renewed : Entry := ⟨[2], ⟨⟨7, 0⟩, ⟨100, 0⟩, 1, false, .binary⟩⟩

def oneNode : List Node := [.fresh ⟨"r"⟩ "test://r" "r"]

theorem rewrite_survives_iff_left :
    Remote.enveloped.Keeps "k" renewed (Remote.put "k" renewed ⟨"r", .empty, [.reread "k"]⟩).2 ∧
      ¬ Distributed.enveloped.Keeps "k" renewed
        (Distributed.put "k" renewed ⟨.new oneNode .standard, .empty,
          [.reread "k", .remove "k"]⟩).2 := by
  have exact : renewed.Exact := ⟨by decide, by decide, by decide⟩
  have fresh : renewed.told.expiredAt ⟨7, 0⟩ = false := by
    rw [exact.told_eq]
    rfl
  have serving : ∀ name, (Fleet.empty.peer name).Serving := Cluster.Peer.fresh_serving
  constructor
  · have kept := (rewrite_survives_iff "k" renewed (by decide) exact.representable ⟨7, 0⟩ fresh
      [.reread "k"] (by decide) .empty).1 "r" (serving "r") rfl
    rw [exact.told_eq] at kept
    exact kept.mpr (by decide)
  · have holds : Distributed.enveloped.Holds
        ⟨.new oneNode .standard, .empty, [.reread "k", .remove "k"]⟩ fun _ => none :=
      ⟨new_serving oneNode .standard .empty (by decide) (by decide)
        fun node _ => serving node.store, fun _ _ _ => rfl⟩
    have lost := (rewrite_survives_iff "k" renewed (by decide) exact.representable ⟨7, 0⟩ fresh
      [.reread "k", .remove "k"] (by decide) .empty).2 oneNode .standard (by decide)
      (fun node _ => serving node.store) (Distributed.enveloped.store "k" renewed holds).result
    rw [exact.told_eq] at lost
    exact fun keeps => lost.mp keeps (by decide)

theorem rewrite_lost :
    renewed.expiredAt ⟨8, 0⟩ = false ∧
      (Remote.enveloped.provider.retrieve ⟨8, 0⟩ "k"
        (Remote.enveloped.play
          [(⟨1, 0⟩, .client (.store "k" stale)), (⟨6, 0⟩, .client (.retrieve "k")),
            (⟨6, 0⟩, .purge 0), (⟨7, 0⟩, .client (.store "k" renewed)), (⟨7, 0⟩, .purge 0)]
          ⟨"r", .empty, []⟩)).1 = .ok .miss := by
  have holds : Remote.enveloped.Holds ⟨"r", .empty, []⟩ fun _ => none :=
    ⟨Cluster.Peer.fresh_serving "r", fun _ => rfl⟩
  exact ⟨rfl, Enveloped.removal_takes_rewrite holds rfl (by decide)
    stale renewed ⟨by decide, by decide, by decide⟩ _ _ _ _ rfl⟩

end RingCache
