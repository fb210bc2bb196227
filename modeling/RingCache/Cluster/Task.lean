import RingCache.Cluster.Fleet

/-!
Tasks. The calls of a write at several nodes run side by side, each in a task of its own, under one
deadline that is counted from the moment when they are all spawned. A task that is not over by then
is cut short, and one under which a store crashes is over at once; neither has an effect. Joining the
handles of tasks gives the ends of the tasks in the order of the handles, in whatever order they came.
-/

namespace RingCache.Cluster

def Outcome.result {α : Type} (timeout : Time.Span) : Outcome α → Except CacheError α
  | .done value => .ok value
  | .refused error => .error error
  | .late => .error (.timeout timeout)

/-- What a handle tells: what its task returned, or how it crashed. -/
abbrev Joined := Except String (Except CacheError Unit)

structure Task where
  handle : Nat
  store : String
  mutation : Mutation

namespace Task

def run (timeout : Time.Span) (task : Task) (fleet : Fleet) : Joined × Fleet :=
  match task.mutation.crash (fleet.peer task.store).manner with
  | some report => (.error report, fleet.note task.store task.mutation.call)
  | none =>
      let (outcome, fleet) := task.mutation.send (some timeout) fleet task.store
      (.ok (outcome.result timeout), fleet)

/-- When a task is over, in nanoseconds after it was spawned. -/
def endsAt (timeout : Time.Span) (fleet : Fleet) (task : Task) : Nat :=
  match task.mutation.crash (fleet.peer task.store).manner with
  | some _ => 0
  | none => min (task.mutation.lasts fleet task.store) timeout.toNanos

def inTurn (timeout : Time.Span) (fleet : Fleet) : List Task → List Task
  | [] => []
  | task :: rest => place task (inTurn timeout fleet rest)
where
  place (task : Task) : List Task → List Task
    | [] => [task]
    | other :: rest =>
        if task.endsAt timeout fleet ≤ other.endsAt timeout fleet then task :: other :: rest
        else other :: place task rest

/-- Lets tasks come to their ends, one after the other; each end stands with its handle. -/
def runAll (timeout : Time.Span) : List Task → Fleet → List (Nat × Joined) × Fleet
  | [], fleet => ([], fleet)
  | task :: rest, fleet =>
      let (joined, fleet) := task.run timeout fleet
      let (ends, fleet) := runAll timeout rest fleet
      ((task.handle, joined) :: ends, fleet)

def joinAll (handles : List Nat) (ends : List (Nat × Joined)) : List Joined :=
  handles.filterMap fun handle => ends.lookup handle

end Task

end RingCache.Cluster
