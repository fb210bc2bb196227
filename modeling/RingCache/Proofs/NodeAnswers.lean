import RingCache.Proofs.NodeCalls

/-!
Answers of nodes. Whether a key or a value may be stored is no question for a node: over HTTP a
call fails for the connection, the time or the status, and a cluster adds failures of its own. As
long as no store fails with the refusal of a key or a value itself, no operation of a storage does.
-/

namespace RingCache

/-- Where it fails, it fails for another reason than a key or a value that may not be stored. -/
def Unrefused {α : Type} (result : Except CacheError α) : Prop :=
  ∀ error, result = .error error → error.isValidation = false

theorem Unrefused.ok {α : Type} (value : α) : Unrefused (.ok value) := by
  rintro _ ⟨⟩

theorem Unrefused.error {α : Type} {error : CacheError} (other : error.isValidation = false) :
    Unrefused (.error error : Except CacheError α) := by
  rintro _ ⟨⟩
  exact other

namespace Http.Client

variable {σ : Type} (client : Client) (transport : Transport σ) (jitter : Nat → Nat)

theorem attemptsFrom_unrefused (url : Net.Url) (request : Request) (left pause sent : Nat)
    (state : σ) :
    Unrefused (client.attemptsFrom transport jitter url request left pause sent state).result := by
  induction left generalizing pause sent state with
  | zero => exact .error rfl
  | succ left ih =>
      rw [attemptsFrom]
      split
      · exact .ok _
      · split
        · rw [transportError]
          split <;> exact .error rfl
        · exact ih _ _ _

theorem call_unrefused {α : Type} (method : String) (url : Net.Url) (contentType : Option Bytes)
    (body : Bytes) (read : Response → Bool → Except CacheError α) (state : σ)
    (reads : ∀ response complete, Unrefused (read response complete)) :
    Unrefused (client.call transport jitter method url contentType body read state).result := by
  simp only [call]
  split
  · next failed =>
      have sent := client.attemptsFrom_unrefused transport jitter url
        ⟨method, target url, contentType, body⟩ client.attempts firstPause 0 state
      rintro _ ⟨⟩
      exact sent _ failed
  · exact reads _ _

theorem get_unrefused (key : String) (state : σ) :
    Unrefused (client.get transport jitter key state).result := by
  refine client.call_unrefused transport jitter _ _ _ _ _ state fun response complete => ?_
  simp only [readGet]
  split
  · exact .ok _
  · split
    · exact .error rfl
    · split
      · exact .ok _
      · exact .error rfl

theorem set_unrefused (key : String) (value : Bytes) (state : σ) :
    Unrefused (client.set transport jitter key value state).result := by
  refine client.call_unrefused transport jitter _ _ _ _ _ state fun response complete => ?_
  rw [readSet]
  split
  · exact .ok _
  · exact .error rfl

theorem delete_unrefused (key : String) (state : σ) :
    Unrefused (client.delete transport jitter key state).result := by
  refine client.call_unrefused transport jitter _ _ _ _ _ state fun response complete => ?_
  rw [readDelete]
  split
  · exact .ok _
  · exact .error rfl

end Http.Client

namespace Cluster

def Outcome.Unrefused {α : Type} (outcome : Outcome α) : Prop :=
  ∀ error, outcome = .refused error → error.isValidation = false

def Conduct.Honest (conduct : Conduct) : Prop :=
  ∀ error, conduct = .fails error → error.isValidation = false

structure Peer.Honest (peer : Peer) : Prop where
  get : peer.manner.get.Honest
  set : peer.manner.set.Honest
  delete : peer.manner.delete.Honest

theorem Conduct.Honest.outcome {α : Type} {conduct : Conduct} (honest : conduct.Honest)
    (limit : Option Time.Span) (value : α) :
    ((conduct.hindrance limit).getD (.done value)).Unrefused := by
  cases conduct with
  | fails error =>
      rintro _ ⟨⟩
      exact honest error rfl
  | delays ms =>
      rw [Conduct.hindrance]
      split <;> rintro _ ⟨⟩
  | serves => rintro _ ⟨⟩

theorem Fleet.ofExchange_unrefused {σ α : Type} (limit : Option Time.Span)
    (exchange : Http.Exchange σ (Except CacheError α)) (sound : Unrefused exchange.result) :
    (ofExchange limit exchange).Unrefused := by
  rw [ofExchange]
  split
  · split
    · rintro _ ⟨⟩
    · next error failed =>
        rintro _ ⟨⟩
        exact sound error failed
  · rintro _ ⟨⟩

theorem Fleet.get_unrefused (fleet : Fleet) (limit : Option Time.Span) (name key : String)
    (honest : (fleet.peer name).Honest) : (fleet.get limit name key).1.Unrefused := by
  simp only [Fleet.get]
  split
  · exact honest.get.outcome limit _
  · exact ofExchange_unrefused limit _ (Http.Client.get_unrefused _ _ _ key ())

theorem Fleet.send_unrefused (fleet : Fleet) (limit : Option Time.Span) (name : String)
    (mutation : Mutation) (honest : (fleet.peer name).Honest) :
    (mutation.send limit fleet name).1.Unrefused := by
  simp only [Mutation.send, change_eq]
  cases (fleet.peer name).backing with
  | own table =>
      cases mutation with
      | set key value => exact honest.set.outcome limit ()
      | delete key => exact honest.delete.outcome limit ()
  | remote client =>
      cases mutation with
      | set key value =>
          exact ofExchange_unrefused limit _ (Http.Client.set_unrefused _ _ _ key value ())
      | delete key =>
          exact ofExchange_unrefused limit _ (Http.Client.delete_unrefused _ _ _ key ())

theorem Outcome.result_unrefused {α : Type} (timeout : Time.Span) (outcome : Outcome α)
    (sound : outcome.Unrefused) : RingCache.Unrefused (outcome.result timeout) := by
  cases outcome with
  | done value => exact .ok value
  | refused error => exact .error (sound error rfl)
  | late => exact .error rfl

theorem Coordinator.get_unrefused (coordinator : Coordinator) (key : String) (fleet : Fleet)
    (honest : ∀ name, (fleet.peer name).Honest) : Unrefused (coordinator.get key fleet).1 := by
  simp only [Coordinator.get]
  split
  · exact .error rfl
  · split
    · exact Outcome.result_unrefused _ _ (fleet.get_unrefused _ _ key (honest _))
    · exact .error rfl

/-- A write to a cluster fails with the failures of its nodes, not with one of them. -/
theorem Write.run_unrefused (coordinator : Coordinator) (write : Write) (fleet : Fleet) :
    Unrefused (write.run coordinator fleet).1 := by
  rw [write.run_eq]
  dsimp only
  split
  · exact .error rfl
  · split
    · exact .ok ()
    · exact .error rfl

end Cluster

open Cluster

def Answer.error? : Answer → Option CacheError
  | .done (.error error) => some error
  | .found (.error error) => some error
  | _ => none

def Answer.Unrefused (answer : Answer) : Prop :=
  ∀ error, answer.error? = some error → error.isValidation = false

theorem Answer.Unrefused.done {result : Except CacheError Unit}
    (sound : RingCache.Unrefused result) : (Answer.done result).Unrefused := by
  cases result with
  | ok => rintro _ ⟨⟩
  | error error =>
      rintro _ ⟨⟩
      exact sound error rfl

theorem Answer.Unrefused.found {result : Except CacheError Lookup}
    (sound : RingCache.Unrefused result) : (Answer.found result).Unrefused := by
  cases result with
  | ok => rintro _ ⟨⟩
  | error error =>
      rintro _ ⟨⟩
      exact sound error rfl

theorem Envelope.lookup_unrefused (now : Time.Instant) (raw : Except CacheError (Option Bytes))
    (sound : Unrefused raw) : Unrefused (raw >>= Envelope.lookup now) := by
  cases raw with
  | error error => exact .error (sound error rfl)
  | ok octets =>
      cases octets with
      | none => exact .ok _
      | some octets =>
          simp only [bind, Except.bind, Envelope.lookup]
          split
          · exact .error rfl
          · exact .ok _

theorem Storage.run_unrefused (operation : Operation) (now : Time.Instant) (storage : Storage)
    (honest : ∀ name, (storage.fleet.peer name).Honest) :
    (operation.run Storage.provider now storage).1.Unrefused := by
  cases storage with
  | memory state => cases operation <;> rintro _ ⟨⟩
  | remote state =>
      have sent (mutation : Mutation) := Outcome.result_unrefused .zero _
        (state.fleet.send_unrefused none state.store mutation (honest state.store))
      cases operation with
      | store key entry => exact .done (sent (.set key (Envelope.encode entry)))
      | retrieve key =>
          exact .found (Envelope.lookup_unrefused now _ (Outcome.result_unrefused .zero _
            (state.fleet.get_unrefused none state.store key (honest state.store))))
      | delete key => exact .done (sent (.delete key))
      | clear => exact .done (sent (.delete ""))
  | distributed state =>
      have written (write : Write) := Write.run_unrefused state.coordinator write state.fleet
      cases operation with
      | store key entry => exact .done (written (.set key (Envelope.encode entry)))
      | retrieve key =>
          exact .found (Envelope.lookup_unrefused now _
            (state.coordinator.get_unrefused key state.fleet honest))
      | delete key => exact .done (written (.delete key))
      | clear => exact .done (written .clear)

end RingCache
