import Mathlib.Algebra.Group.Nat.Defs
import Mathlib.Data.List.Range
import RingCache.Http.Client

/-!
Requests that are sent again. Of a sequence of deliveries an exchange takes those up to the first
answer, or all that the client may attempt, and its result is that of the last one it took. Between
two attempts it pauses for a delay that doubles from 150 to 1200 milliseconds, and for a random part
below 50.
-/

namespace RingCache.Http

def Delivery.isAnswered : Delivery → Bool
  | .answered _ _ => true
  | _ => false

/-- The other side counts the requests, and each has the outcome that its place gives. -/
def Transport.scripted (outcomes : Nat → Delivery) : Transport Nat :=
  fun _ place => (outcomes place, place + 1)

namespace Client

section Requests

variable {σ : Type} (transport : Transport σ) (url : Net.Url) (request : Request)

def reached : Nat → σ → σ
  | 0, state => state
  | requests + 1, state => reached requests (deliver transport url request state).2

def outcome (before : Nat) (state : σ) : Delivery :=
  (deliver transport url request (reached transport url request before state)).1

theorem outcome_succ (before : Nat) (state : σ) :
    outcome transport url request (before + 1) state =
      outcome transport url request before (deliver transport url request state).2 := rfl

/-- Every sequence of outcomes comes about. -/
theorem outcome_scripted (outcomes : Nat → Delivery) (sendable : isSendable url = true)
    (before place : Nat) :
    outcome (.scripted outcomes) url request before place = outcomes (place + before) := by
  induction before generalizing place with
  | zero => simp [outcome, reached, deliver, sendable, Transport.scripted]
  | succ before ih =>
      rw [outcome_succ, deliver, if_pos sendable, Transport.scripted, ih]
      congr 1
      omega

end Requests

def verdict (client : Client) (url : Net.Url) : Delivery → Except CacheError (Response × Bool)
  | .answered response complete => .ok (response, complete)
  | .timedOut => .error (.timeout client.timeout)
  | .lost => .error (client.connection (failure url))

def delayAfter : (failures : Nat) → Nat
  | 0 => firstPause
  | failures + 1 => min (delayAfter failures * 2) longestPause

theorem delayAfter_eq (failures : Nat) : delayAfter failures = min (150 * 2 ^ failures) 1200 := by
  induction failures with
  | zero => rfl
  | succ failures ih =>
      rw [delayAfter, ih, longestPause, Nat.pow_succ]
      omega

/-- The attempts that are made of at most so many: some that fail, and one that is answered or the
last that may be made. -/
structure Attempts (outcomes : Nat → Delivery) (most failures : Nat) : Prop where
  within : failures < most
  failed : ∀ before < failures, (outcomes before).isAnswered = false
  ended : (outcomes failures).isAnswered = true ∨ failures + 1 = most

theorem Attempts.answered {outcomes : Nat → Delivery} {most : Nat} (positive : 0 < most)
    (answered : (outcomes 0).isAnswered = true) : Attempts outcomes most 0 :=
  ⟨positive, fun before earlier => absurd earlier (Nat.not_lt_zero before), .inl answered⟩

theorem Attempts.behind {outcomes : Nat → Delivery} {most failures : Nat}
    (failed : (outcomes 0).isAnswered = false)
    (rest : Attempts (fun before => outcomes (before + 1)) most failures) :
    Attempts outcomes (most + 1) (failures + 1) := by
  constructor
  case within => exact Nat.succ_lt_succ rest.within
  case failed =>
    intro before earlier
    cases before with
    | zero => exact failed
    | succ before => exact rest.failed before (Nat.lt_of_succ_lt_succ earlier)
  case ended => exact rest.ended.imp id (congrArg (· + 1))

section Exchanges

variable {σ : Type} (client : Client) (transport : Transport σ) (jitter : Nat → Nat)
  (url : Net.Url) (request : Request)

def pausesFrom (sent failures : Nat) : List Nat :=
  (List.range failures).map fun before =>
    delayAfter (sent + before) + jitter (sent + before) % jitterRange

theorem pausesFrom_succ (sent failures : Nat) :
    pausesFrom jitter sent (failures + 1) =
      (delayAfter sent + jitter sent % jitterRange) :: pausesFrom jitter (sent + 1) failures := by
  rw [pausesFrom, List.range_succ_eq_map, List.map_cons, List.map_map]
  congr 1
  apply List.map_congr_left
  intro before _
  simp only [Function.comp_apply, Nat.succ_eq_add_one, Nat.add_comm before 1, Nat.add_assoc]

def ended (sent failures : Nat) (state : σ) : Exchange σ (Except CacheError (Response × Bool)) :=
  ⟨client.verdict url (outcome transport url request failures state),
    pausesFrom jitter sent failures, sent + failures + 1,
    reached transport url request (failures + 1) state⟩

/-- The invariant of the loop: what is left of it is an exchange on its own, whose delay is the one
due after the failures so far. -/
theorem attemptsFrom_ended (left sent : Nat) (state : σ) :
    ∃ failures, Attempts (fun before => outcome transport url request before state)
        (left + 1) failures ∧
      client.attemptsFrom transport jitter url request (left + 1) (delayAfter sent) sent state =
        client.ended transport jitter url request sent failures state := by
  induction left generalizing sent state with
  | zero =>
      refine ⟨0, ⟨Nat.one_pos, fun _ earlier => absurd earlier (Nat.not_lt_zero _), .inr rfl⟩, ?_⟩
      rw [attemptsFrom]
      cases delivered : deliver transport url request state with
      | mk delivery after =>
          cases delivery <;>
            simp [ended, outcome, reached, delivered, verdict, transportError, pausesFrom]
  | succ left ih =>
      rw [attemptsFrom]
      cases delivered : deliver transport url request state with
      | mk delivery after =>
          have first : outcome transport url request 0 state = delivery :=
            congrArg Prod.fst delivered
          have later (before : Nat) : outcome transport url request (before + 1) state =
              outcome transport url request before after :=
            congrArg (fun next : Delivery × σ => outcome transport url request before next.2)
              delivered
          cases delivery with
          | answered response complete =>
              refine ⟨0, .answered (Nat.succ_pos _) (by rw [first]; rfl), ?_⟩
              simp [ended, outcome, reached, delivered, verdict, pausesFrom]
          | timedOut | lost =>
              obtain ⟨failures, made, run⟩ := ih (sent + 1) after
              refine ⟨failures + 1, .behind (by rw [first]; rfl) (by simpa only [later] using made), ?_⟩
              rw [delayAfter] at run
              simp only [run, ended, later, pausesFrom_succ, reached, delivered]
              simp [Nat.add_assoc, Nat.add_comm 1]

theorem failure_spoken (url : Net.Url) : failure url ≠ "retry attempts exhausted" := by
  intro same
  have letters := congrArg (fun text : String => text.toList.head?) same
  rw [failure] at letters
  split at letters <;> simp [toString] at letters

structure Retried (attempts : Nat) (outcomes : Nat → Delivery)
    (exchange : Exchange σ (Except CacheError (Response × Bool))) : Prop where
  /-- The first answer, whatever its status, is the result, unless it comes too late. -/
  answered : ∀ before response complete, outcomes before = .answered response complete →
    (∀ earlier < before, (outcomes earlier).isAnswered = false) →
      exchange.requests = min (before + 1) attempts ∧
        (before < attempts → exchange.result = .ok (response, complete))
  /-- Without an answer all attempts are made, and the last of them decides the error. -/
  failed : (∀ before < attempts, (outcomes before).isAnswered = false) →
    exchange.requests = attempts ∧
      exchange.result = .error (if outcomes (attempts - 1) = .timedOut then .timeout client.timeout
        else .connection client.endpoint (failure url))
  unspent : exchange.result ≠ .error (.connection client.endpoint "retry attempts exhausted")
  paused : exchange.pauses.length + 1 = exchange.requests
  bounded : ∀ before pause, exchange.pauses[before]? = some pause →
    min (150 * 2 ^ before) 1200 ≤ pause ∧ pause ≤ min (150 * 2 ^ before) 1200 + 49
  fits : ∀ before pause, exchange.pauses[before]? = some pause →
    pause = delayAfter before + jitter before % jitterRange ∧
      delayAfter before * 2 < 2 ^ 64 ∧ pause < 2 ^ 64

theorem Attempts.requests {outcomes : Nat → Delivery} {most failures : Nat}
    (made : Attempts outcomes most failures) {before : Nat}
    (answered : (outcomes before).isAnswered = true)
    (first : ∀ earlier < before, (outcomes earlier).isAnswered = false) :
    failures + 1 = min (before + 1) most ∧ (before < most → failures = before) := by
  have within := made.within
  have notLater : failures ≤ before := by
    by_contra later
    exact Bool.false_ne_true ((made.failed before (Nat.lt_of_not_le later)).symm.trans answered)
  rcases made.ended with last | spent
  · have notEarlier : before ≤ failures := by
      by_contra earlier
      exact Bool.false_ne_true ((first failures (Nat.lt_of_not_le earlier)).symm.trans last)
    omega
  · omega

theorem verdict_failed {delivery : Delivery} (failed : delivery.isAnswered = false) :
    client.verdict url delivery = .error (if delivery = .timedOut then .timeout client.timeout
      else .connection client.endpoint (failure url)) := by
  cases delivery with
  | answered response complete => contradiction
  | timedOut => rfl
  | lost => rfl

theorem verdict_unspent (delivery : Delivery) : client.verdict url delivery ≠
    .error (.connection client.endpoint "retry attempts exhausted") := by
  cases delivery with
  | answered response complete => exact nofun
  | timedOut => exact nofun
  | lost =>
      intro same
      have worded := (CacheError.connection.inj (Except.error.inj same)).2
      exact failure_spoken url worded

theorem ended_retried (failures : Nat) (attempts : Nat) (state : σ)
    (made : Attempts (fun before => outcome transport url request before state) attempts failures) :
    client.Retried jitter url attempts (fun before => outcome transport url request before state)
      (client.ended transport jitter url request 0 failures state) := by
  have pauses (place pause : Nat) (found : (pausesFrom jitter 0 failures)[place]? = some pause) :
      pause = delayAfter place + jitter place % jitterRange := by
    simp only [pausesFrom, List.getElem?_map, Option.map_eq_some_iff, Nat.zero_add] at found
    obtain ⟨before, there, same⟩ := found
    rw [List.getElem?_range (by simpa using (List.getElem?_eq_some_iff.mp there).1)] at there
    rw [← same, Option.some.inj there]
  constructor
  case answered =>
    intro before response complete answered first
    have isAnswered : (outcome transport url request before state).isAnswered = true := by
      rw [answered]
      rfl
    obtain ⟨requests, result⟩ := made.requests isAnswered first
    refine ⟨by simp only [ended, Nat.zero_add, requests], fun soon => ?_⟩
    simp only [ended, result soon, answered, verdict]
  case failed =>
    intro failed
    have last := (made.ended.resolve_left (by simp [failed failures made.within]))
    refine ⟨by simp only [ended, Nat.zero_add, last], ?_⟩
    rw [← last, Nat.add_sub_cancel]
    exact client.verdict_failed url (failed failures made.within)
  case unspent => exact client.verdict_unspent url _
  case paused => simp [ended, pausesFrom]
  case bounded =>
    intro place pause found
    have random := Nat.mod_lt (jitter place) (show 0 < jitterRange by decide)
    rw [jitterRange] at random
    rw [pauses place pause found, delayAfter_eq, jitterRange]
    omega
  case fits =>
    intro place pause found
    have random := Nat.mod_lt (jitter place) (show 0 < jitterRange by decide)
    rw [jitterRange] at random
    refine ⟨pauses place pause found, ?_⟩
    rw [pauses place pause found, delayAfter_eq, jitterRange]
    omega

end Exchanges

theorem new_attempts {endpoint : String} {timeout : Time.Span} {attempts : Nat} {client : Client}
    (made : new endpoint timeout attempts = .ok client) :
    client.endpoint = endpoint ∧ client.timeout = timeout ∧ client.attempts = max attempts 1 := by
  unfold new at made
  split at made
  · cases made
  · split at made
    · cases made
      exact ⟨rfl, rfl, rfl⟩
    · cases made

/-- Any request of a client that was made for some number of attempts, where none stands for one, over
any transport: the exchange is the one that the outcomes of the single requests give, and the other
side has seen as many requests as it counts. -/
theorem send_retried {σ : Type} {endpoint : String} {timeout : Time.Span} {attempts : Nat}
    {client : Client} (made : new endpoint timeout attempts = .ok client) (transport : Transport σ)
    (jitter : Nat → Nat) (url : Net.Url) (request : Request) (state : σ) :
    let exchange := client.send transport jitter url request state
    client.endpoint = endpoint ∧ client.timeout = timeout ∧
      exchange.state = reached transport url request exchange.requests state ∧
      client.Retried jitter url (max attempts 1)
        (fun before => outcome transport url request before state) exchange := by
  intro exchange
  obtain ⟨sameEndpoint, sameTimeout, most⟩ := new_attempts made
  obtain ⟨left, positive⟩ : ∃ left, max attempts 1 = left + 1 :=
    Nat.exists_eq_add_one.mpr (Nat.le_max_right attempts 1)
  obtain ⟨failures, tried, run⟩ :=
    client.attemptsFrom_ended transport jitter url request left 0 state
  have ended : exchange = client.ended transport jitter url request 0 failures state := by
    rw [← run, ← positive, ← most]
    rfl
  refine ⟨sameEndpoint, sameTimeout, ?_, ?_⟩
  · rw [ended, Client.ended, Nat.zero_add]
  · rw [ended, positive]
    exact client.ended_retried transport jitter url request failures (left + 1) state tried

-- A timeout, a lost connection, and then a refusal by the service.
def retryingClient : Client :=
  ⟨⟨"http", some "[::1]", some 7, .segments [""], none, none⟩, "http://[::1]:7", ⟨1, 0⟩, 3⟩

def faltering : Nat → Delivery
  | 0 => .timedOut
  | 1 => .lost
  | _ => .answered ⟨503, none, none, []⟩ true

theorem send_retried_third :
    new "http://[::1]:7" ⟨1, 0⟩ 3 = .ok retryingClient ∧
      let exchange := retryingClient.send (.scripted faltering) (fun _ => 70)
        (retryingClient.entryUrl (some "k")) ⟨"GET", "/internal/entry/k", none, []⟩ 0
      exchange.requests = 3 ∧ exchange.result = .ok (⟨503, none, none, []⟩, true) ∧
        exchange.pauses = [170, 320] := by
  have made : new "http://[::1]:7" ⟨1, 0⟩ 3 = .ok retryingClient := rfl
  refine ⟨made, ?_⟩
  obtain ⟨_, _, _, retried⟩ := send_retried made (.scripted faltering) (fun _ => 70)
    (retryingClient.entryUrl (some "k")) ⟨"GET", "/internal/entry/k", none, []⟩ 0
  have outcomes (before : Nat) : outcome (.scripted faltering) (retryingClient.entryUrl (some "k"))
      ⟨"GET", "/internal/entry/k", none, []⟩ before 0 = faltering before := by
    rw [outcome_scripted _ _ _ rfl, Nat.zero_add]
  simp only [outcomes] at retried
  obtain ⟨requests, result⟩ := retried.answered 2 ⟨503, none, none, []⟩ true rfl (by decide)
  exact ⟨requests, result (by decide), by decide⟩

end Client

end RingCache.Http
