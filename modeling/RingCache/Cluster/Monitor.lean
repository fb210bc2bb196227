import RingCache.Cluster.Health
import RingCache.Cluster.Signal

/-!
The health monitor: a loop that waits for the next tick of a timer or for a shutdown signal, and
probes all nodes at each tick. While a round is under way the monitor looks at neither, so rounds
never overlap and a round is never left half applied. Times are nanoseconds since the monitor
started.
-/

namespace RingCache.Cluster

-- A repeating timer. A tick that is taken late by more than `tolerance` puts the next one a whole
-- period after it was taken; any other tick leaves the schedule as it is.
structure Timer where
  period : Nat
  deadline : Nat
  deriving DecidableEq, Repr

namespace Timer

def tolerance : Nat := nanosOfMillis 5

def start (period now : Nat) : Timer := ⟨period, now + period⟩

def takenAt (timer : Timer) (now : Nat) : Timer :=
  let base := if timer.deadline + tolerance < now then now else timer.deadline
  { timer with deadline := base + timer.period }

end Timer

structure Scene where
  coordinator : Coordinator
  fleet : Fleet
  signals : Signals

inductive Stage where
  | waiting
  /-- The answers of a round, which are all in at `finish`. -/
  | probing (answers : List (NodeId × Bool)) (finish : Nat)
  | stopped
  deriving DecidableEq, Repr

structure Monitor where
  timer : Timer
  stage : Stage
  deriving DecidableEq, Repr

inductive Deed where
  | probed (nodes : List NodeId)
  | applied (report : HealthReport)
  | received (receipt : Receipt)
  deriving DecidableEq, Repr

namespace Monitor

def start (options : Options) (now : Nat) : Monitor :=
  ⟨.start options.healthInterval.toNanos now, .waiting⟩

def probe (now : Nat) (monitor : Monitor) (scene : Scene) : Deed × Monitor × Scene :=
  let nodes := scene.coordinator.registry.nodes
  let (probes, fleet) := Probes.run scene.coordinator.options.healthTimeout nodes scene.fleet
  (.probed (nodes.map Node.id),
    ⟨monitor.timer.takenAt now, .probing probes.answers (now + probes.duration)⟩,
    { scene with fleet })

def finish (answers : List (NodeId × Bool)) (monitor : Monitor) (scene : Scene) :
    Deed × Monitor × Scene :=
  let (report, registry) := Probes.apply answers scene.coordinator.registry
  (.applied report, { monitor with stage := .waiting },
    { scene with coordinator := { scene.coordinator with registry } })

/-- A receiver that fell behind goes on; any other receipt ends the loop. -/
def hear (receipt : Receipt) (signals : Signals) (monitor : Monitor) (scene : Scene) :
    Deed × Monitor × Scene :=
  let stage := match receipt with
    | .lagged _ => Stage.waiting
    | .signal => .stopped
    | .closed => .stopped
  (.received receipt, { monitor with stage }, { scene with signals })

/-- The monitor's step at a time, if there is something for it to do. When a tick is due and
something is there to receive, `tickFirst` says which of them is taken. -/
def step (now : Nat) (tickFirst : Bool) (monitor : Monitor) (scene : Scene) :
    Option (Deed × Monitor × Scene) :=
  match monitor.stage with
  | .stopped => none
  | .probing answers last =>
      if last ≤ now then some (finish answers monitor scene) else none
  | .waiting =>
      let due : Bool := monitor.timer.deadline ≤ now
      match scene.signals.receive with
      | none => if due then some (probe now monitor scene) else none
      | some (receipt, signals) =>
          if due && tickFirst then some (probe now monitor scene)
          else some (hear receipt signals monitor scene)

def nextTime (monitor : Monitor) : Option Nat :=
  match monitor.stage with
  | .stopped => none
  | .probing _ last => some last
  | .waiting => some monitor.timer.deadline

def runBefore (stop : Nat) : (steps : Nat) → (now : Nat) → Monitor → Scene → Monitor × Scene
  | 0, _, monitor, scene => (monitor, scene)
  | steps + 1, now, monitor, scene =>
      match step now false monitor scene with
      | some (_, monitor, scene) => runBefore stop steps now monitor scene
      -- Nothing to do now: the clock moves to where there is.
      | none =>
          match monitor.nextTime with
          | none => (monitor, scene)
          | some time =>
              if now < time && time < stop then runBefore stop steps time monitor scene
              else (monitor, scene)

/-- Lets the time pass from `now` until just before `stop`, both in milliseconds. Between two moves of
the clock there are at most a tick, the end of its round, and what can be received. -/
def advance (now stop : Nat) (monitor : Monitor) (scene : Scene) : Monitor × Scene :=
  let now := nanosOfMillis now
  let stop := nanosOfMillis stop
  if stop ≤ now then (monitor, scene)
  else runBefore stop (4 * (stop - now) + scene.signals.sent + 8) now monitor scene

def isStopped (monitor : Monitor) : Bool := monitor.stage = .stopped

end Monitor

end RingCache.Cluster
