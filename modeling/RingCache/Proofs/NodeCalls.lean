import RingCache.Proofs.WrittenValues

/-!
Calls at nodes. Each operation of a storage, and each call of a purge, calls nodes in one way only:
by the key that it is about, or by the empty key if all keys are to be deleted. Purges are about
the keys whose reads left them behind.
-/

namespace RingCache

namespace Cluster

/-- From one state of the stores to another, only such calls were made. -/
def Fleet.Made (such : Call → Prop) (before after : Fleet) : Prop :=
  ∀ name, ∃ calls, (after.peer name).calls = calls ++ (before.peer name).calls ∧
    ∀ call ∈ calls, such call

namespace Fleet

variable {such : Call → Prop}

theorem Made.refl (fleet : Fleet) : fleet.Made such fleet := fun _ => ⟨[], rfl, nofun⟩

theorem Made.trans {first second third : Fleet} (early : first.Made such second)
    (late : second.Made such third) : first.Made such third := by
  intro name
  obtain ⟨earlier, before, soundBefore⟩ := early name
  obtain ⟨later, after, soundAfter⟩ := late name
  refine ⟨later ++ earlier, by rw [after, before, List.append_assoc], fun call among => ?_⟩
  exact (List.mem_append.mp among).elim (soundAfter call) (soundBefore call)

theorem Made.mono {such' : Call → Prop} {before after : Fleet} (made : before.Made such after)
    (implies : ∀ call, such call → such' call) : before.Made such' after := by
  intro name
  obtain ⟨calls, same, sound⟩ := made name
  exact ⟨calls, same, fun call among => implies call (sound call among)⟩

/-- One more call at one store. -/
theorem Made.one (fleet : Fleet) (name : String) (peer : Peer) (call : Call) (sound : such call)
    (called : peer.calls = call :: (fleet.peer name).calls) :
    fleet.Made such (fleet.put name peer) := by
  intro other
  rw [peer_put]
  split
  · next same => exact ⟨[call], by rw [called, same]; rfl, by simpa using sound⟩
  · exact Made.refl fleet other

theorem get_made (fleet : Fleet) (limit : Option Time.Span) (name key : String) :
    fleet.Made (· = .get key) (fleet.get limit name key).2 :=
  Made.one fleet name _ (.get key) rfl rfl

theorem send_made (fleet : Fleet) (limit : Option Time.Span) (name : String)
    (mutation : Mutation) :
    fleet.Made (· = mutation.call) (mutation.send limit fleet name).2 := by
  obtain ⟨backing, _, sent⟩ := fleet.send_peer limit name mutation
  rw [sent]
  exact Made.one fleet name _ mutation.call rfl rfl

end Fleet

theorem Task.run_made (timeout : Time.Span) (task : Task) (fleet : Fleet) :
    fleet.Made (· = task.mutation.call) (task.run timeout fleet).2 := by
  obtain ⟨backing, _, ran⟩ := task.run_peer timeout fleet
  rw [ran]
  exact .one fleet task.store _ task.mutation.call rfl rfl

theorem Task.runAll_made (timeout : Time.Span) (call : Call) (tasks : List Task) (fleet : Fleet)
    (uniform : ∀ task ∈ tasks, task.mutation.call = call) :
    fleet.Made (· = call) (Task.runAll timeout tasks fleet).2 := by
  induction tasks generalizing fleet with
  | nil => exact .refl fleet
  | cons task rest ih =>
      rw [List.forall_mem_cons] at uniform
      obtain ⟨here, others⟩ := uniform
      exact (here ▸ task.run_made timeout fleet).trans (ih _ others)

theorem Coordinator.callAll_made (timeout : Time.Span) (order : List Task → List Task)
    (permutes : ∀ tasks, (order tasks).Perm tasks) (mutation : Mutation) (targets : List Node)
    (fleet : Fleet) :
    fleet.Made (· = mutation.call) (callAll timeout order mutation targets fleet).2 := by
  simp only [callAll, List.unzip_eq_map]
  apply Task.runAll_made
  intro task member
  rw [spawn_uniform mutation targets task ((permutes _).mem_iff.mp member)]

theorem Coordinator.get_made (coordinator : Coordinator) (key : String) (fleet : Fleet) :
    fleet.Made (· = .get key) (coordinator.get key fleet).2 := by
  simp only [Coordinator.get]
  split
  · exact .refl fleet
  · split
    · exact fleet.get_made (some coordinator.timeout) _ key
    · exact .refl fleet

theorem Write.run_made (coordinator : Coordinator) (write : Write) (fleet : Fleet) :
    fleet.Made (· = write.mutation.call) (write.run coordinator fleet).2 := by
  rw [write.run_eq]
  exact Coordinator.callAll_made _ _ (Task.inTurn_perm _ fleet) write.mutation _ fleet

end Cluster

open Cluster

def Operation.Makes : Operation → Call → Prop
  | .store key _ => (· = .set key)
  | .retrieve key => (· = .get key)
  | .delete key => (· = .delete key)
  | .clear => (· = .delete "")

theorem Remote.run_made (operation : Operation) (now : Time.Instant) (remote : Remote) :
    remote.fleet.Made operation.Makes (operation.run Remote.provider now remote).2.fleet := by
  cases operation with
  | store key entry =>
      exact remote.fleet.send_made none remote.store (.set key (Envelope.encode entry))
  | retrieve key => exact remote.fleet.get_made none remote.store key
  | delete key => exact remote.fleet.send_made none remote.store (.delete key)
  | clear => exact remote.fleet.send_made none remote.store (.delete "")

theorem Distributed.run_made (operation : Operation) (now : Time.Instant) (cluster : Distributed) :
    cluster.fleet.Made operation.Makes
      (operation.run Distributed.provider now cluster).2.fleet := by
  cases operation with
  | store key entry => exact Write.run_made cluster.coordinator (.set key (Envelope.encode entry)) _
  | retrieve key => exact cluster.coordinator.get_made key cluster.fleet
  | delete key => exact Write.run_made cluster.coordinator (.delete key) _
  | clear => exact Write.run_made cluster.coordinator .clear _

theorem Storage.run_made (operation : Operation) (now : Time.Instant) (storage : Storage) :
    storage.fleet.Made operation.Makes (operation.run Storage.provider now storage).2.fleet := by
  cases storage with
  | memory state => cases operation <;> exact .refl _
  | remote state =>
      have made := Remote.run_made operation now state
      cases operation <;> exact made
  | distributed state =>
      have made := Distributed.run_made operation now state
      cases operation <;> exact made

def Storage.pending : Storage → List Purge
  | .memory _ => []
  | .remote state => state.pending
  | .distributed state => state.pending

def Storage.Keyed (storage : Storage) : Prop := ∀ purge ∈ storage.pending, purge.key ≠ ""

theorem Lookup.purges_key (key : String) (found : Except CacheError Lookup) :
    ∀ purge ∈ Lookup.purges key found, purge.key = key := by
  intro purge among
  unfold Lookup.purges at among
  split at among
  · rw [List.mem_singleton.mp among]
    rfl
  · cases among

theorem Storage.run_keyed (operation : Operation) (keyed : operation.Keyed) (now : Time.Instant)
    (storage : Storage) (before : storage.Keyed) :
    (operation.run Storage.provider now storage).2.Keyed := by
  -- Only a read leaves a purge behind, and only one of its own key.
  have appended (pending : List Purge) (key : String) (found : Except CacheError Lookup)
      (old : ∀ purge ∈ pending, purge.key ≠ "") (named : key ≠ "") :
      ∀ purge ∈ pending ++ Lookup.purges key found, purge.key ≠ "" := by
    intro purge among
    rcases List.mem_append.mp among with earlier | left
    · exact old purge earlier
    · rwa [Lookup.purges_key key found purge left]
  cases storage with
  | memory state => cases operation <;> exact before
  | remote state =>
      cases operation with
      | retrieve key => exact appended _ key _ before keyed
      | store | delete | clear => exact before
  | distributed state =>
      cases operation with
      | retrieve key => exact appended _ key _ before keyed
      | store | delete | clear => exact before

def Purge.Makes : Purge → Call → Prop
  | .reread key => (· = .get key)
  | .remove key => (· = .delete key)

/-- What is left of a purge is about its key. -/
theorem Purge.step_key {σ : Type} (access : Purge.Access σ) (now : Time.Instant) (purge : Purge)
    (state : σ) : ∀ next ∈ (purge.step access now state).1, next.key = purge.key := by
  cases purge with
  | reread key =>
      simp only [Purge.step]
      split
      · split
        · rintro next ⟨⟩
          rfl
        · rintro next ⟨⟩
      · rintro next ⟨⟩
  | remove key => rintro next ⟨⟩

theorem Remote.step_made (now : Time.Instant) (purge : Purge) (remote : Remote) :
    remote.fleet.Made purge.Makes (purge.step Remote.access now remote).2.fleet ∧
      (purge.step Remote.access now remote).2.pending = remote.pending := by
  cases purge with
  | reread key =>
      have made := remote.fleet.get_made none remote.store key
      simp only [Purge.step, Remote.access]
      split <;> exact ⟨made, rfl⟩
  | remove key => exact ⟨remote.fleet.send_made none remote.store (.delete key), rfl⟩

theorem Distributed.step_made (now : Time.Instant) (purge : Purge) (cluster : Distributed) :
    cluster.fleet.Made purge.Makes (purge.step Distributed.access now cluster).2.fleet ∧
      (purge.step Distributed.access now cluster).2.pending = cluster.pending := by
  cases purge with
  | reread key =>
      have made := cluster.coordinator.get_made key cluster.fleet
      simp only [Purge.step, Distributed.access]
      split <;> exact ⟨made, rfl⟩
  | remove key => exact ⟨Write.run_made cluster.coordinator (.delete key) _, rfl⟩

/-- One call of a purge that is left: a call about its key, if it makes any. -/
theorem Enveloped.purge_made {σ : Type} (view : Enveloped σ) (fleet : σ → Fleet)
    (now : Time.Instant)
    (leaves : ∀ purges state, fleet (view.leave purges state) = fleet state ∧
      view.pending (view.leave purges state) = purges)
    (steps : ∀ (purge : Purge) state,
      (fleet state).Made purge.Makes (fleet (purge.step view.access now state).2) ∧
        view.pending (purge.step view.access now state).2 = view.pending state)
    (place : Nat) (state : σ) :
    (fleet state).Made (fun call => ∃ purge ∈ view.pending state, purge.Makes call)
        (fleet (view.turn now (.purge place) state)) ∧
      ∀ purge ∈ view.pending (view.turn now (.purge place) state),
        ∃ old ∈ view.pending state, purge.key = old.key := by
  simp only [Enveloped.turn]
  cases held : (view.pending state)[place]? with
  | none => exact ⟨.refl _, fun purge among => ⟨purge, among, rfl⟩⟩
  | some purge =>
      obtain ⟨made, pending⟩ := steps purge state
      have member : purge ∈ view.pending state := List.mem_of_getElem? held
      simp only [leaves, pending]
      refine ⟨made.mono fun call makes => ⟨purge, member, makes⟩, fun next among => ?_⟩
      rcases List.mem_append.mp among with kept | new
      · exact ⟨next, List.mem_of_mem_eraseIdx kept, rfl⟩
      · exact ⟨purge, member, purge.step_key view.access now state next (by simpa using new)⟩

theorem Storage.purge_made (now : Time.Instant) (place : Nat) (storage : Storage) :
    storage.fleet.Made (fun call => ∃ purge ∈ storage.pending, purge.Makes call)
        (storage.purge now place).fleet ∧
      ∀ purge ∈ (storage.purge now place).pending,
        ∃ old ∈ storage.pending, purge.key = old.key := by
  cases storage with
  | memory state => exact ⟨.refl _, nofun⟩
  | remote state =>
      exact Remote.enveloped.purge_made Remote.fleet now (fun _ _ => ⟨rfl, rfl⟩)
        (Remote.step_made now) place state
  | distributed state =>
      exact Distributed.enveloped.purge_made Distributed.fleet now (fun _ _ => ⟨rfl, rfl⟩)
        (Distributed.step_made now) place state

theorem Storage.sweep_made (now : Time.Instant) (storage : Storage) :
    (storage.sweep now).fleet = storage.fleet ∧ (storage.sweep now).pending = storage.pending := by
  cases storage <;> exact ⟨rfl, rfl⟩

end RingCache
