import RingCache.Cluster.Monitor
import RingCache.Proofs.HealthRounds

/-!
Courses of a health monitor. Its steps lie among whatever may happen around it: flags and node lists
change, stores begin to answer in other ways, signals are sent and the sender goes away, each at any
time and in any number. Time passes only while the monitor has nothing to do, and not beyond the
next time at which it has; so a step may wait for what happens at the same time, but not longer.
-/

namespace RingCache.Cluster

structure Watch where
  now : Nat
  monitor : Monitor
  scene : Scene

namespace Watch

def start (coordinator : Coordinator) (fleet : Fleet) (capacity : Nat) : Watch :=
  ⟨0, .start coordinator.options 0, ⟨coordinator, fleet, .fresh capacity⟩⟩

inductive Event where
  | act (tickFirst : Bool)
  | pass (nanos : Nat)
  | change (change : Change)
  | equip (fleet : Fleet)
  | send
  | drop

structure Act where
  before : Watch
  deed : Deed
  after : Watch

def take (tickFirst : Bool) (watch : Watch) : Option (Deed × Watch) :=
  (watch.monitor.step watch.now tickFirst watch.scene).map fun (deed, monitor, scene) =>
    (deed, ⟨watch.now, monitor, scene⟩)

def isIdle (watch : Watch) : Bool := (watch.take false).isNone

/-- When the clock reads after some time, if the monitor has nothing to do before. -/
def clockAfter (nanos : Nat) (watch : Watch) : Nat :=
  match watch.monitor.nextTime with
  | none => watch.now + nanos
  | some time => min (watch.now + nanos) time

def setRegistry (registry : Registry) (watch : Watch) : Watch :=
  { watch with scene :=
      { watch.scene with coordinator := { watch.scene.coordinator with registry } } }

def setSignals (signals : Signals) (watch : Watch) : Watch :=
  { watch with scene := { watch.scene with signals } }

def after (watch : Watch) : Event → Watch
  | .act tickFirst => match watch.take tickFirst with
    | none => watch
    | some (_, after) => after
  | .pass nanos => if watch.isIdle then { watch with now := watch.clockAfter nanos } else watch
  | .change change => watch.setRegistry (watch.scene.coordinator.registry.change change)
  | .equip fleet => { watch with scene := { watch.scene with fleet } }
  | .send => watch.setSignals watch.scene.signals.send
  | .drop => watch.setSignals watch.scene.signals.drop

def taken (watch : Watch) : Event → List Act
  | .act tickFirst => match watch.take tickFirst with
    | none => []
    | some (deed, after) => [⟨watch, deed, after⟩]
  | _ => []

def run : List Event → Watch → Watch
  | [], watch => watch
  | event :: rest, watch => run rest (watch.after event)

def acts : List Event → Watch → List Act
  | [], _ => []
  | event :: rest, watch => watch.taken event ++ acts rest (watch.after event)

theorem run_append (earlier later : List Event) (watch : Watch) :
    run (earlier ++ later) watch = run later (run earlier watch) := by
  induction earlier generalizing watch with
  | nil => rfl
  | cons event rest ih => exact ih (watch.after event)

theorem acts_append (earlier later : List Event) (watch : Watch) :
    acts (earlier ++ later) watch = acts earlier watch ++ acts later (run earlier watch) := by
  induction earlier generalizing watch with
  | nil => rfl
  | cons event rest ih =>
      rw [List.cons_append, acts, ih, acts, List.append_assoc]
      rfl

inductive Takes (watch : Watch) : Deed → Watch → Prop
  | finish (answers : List (NodeId × Bool)) (last : Nat)
      (stage : watch.monitor.stage = .probing answers last) (ended : last ≤ watch.now) :
      Takes watch (.applied (Probes.apply answers watch.scene.coordinator.registry).1)
        { watch.setRegistry (Probes.apply answers watch.scene.coordinator.registry).2 with
          monitor := ⟨watch.monitor.timer, .waiting⟩ }
  | probe (probes : Probes) (fleet : Fleet)
      (stage : watch.monitor.stage = .waiting) (due : watch.monitor.timer.deadline ≤ watch.now)
      (asked : Probes.run watch.scene.coordinator.options.healthTimeout
        watch.scene.coordinator.registry.nodes watch.scene.fleet = (probes, fleet)) :
      Takes watch (.probed (watch.scene.coordinator.registry.nodes.map Node.id))
        ⟨watch.now, ⟨watch.monitor.timer.takenAt watch.now,
          .probing probes.answers (watch.now + probes.duration)⟩,
          { watch.scene with fleet }⟩
  | lag (missed : Nat) (signals : Signals) (stage : watch.monitor.stage = .waiting)
      (received : watch.scene.signals.receive = some (.lagged missed, signals)) :
      Takes watch (.received (.lagged missed)) (watch.setSignals signals)
  | leave (receipt : Receipt) (signals : Signals) (stage : watch.monitor.stage = .waiting)
      (received : watch.scene.signals.receive = some (receipt, signals))
      (ends : ∀ missed, receipt ≠ .lagged missed) :
      Takes watch (.received receipt)
        { watch.setSignals signals with monitor := ⟨watch.monitor.timer, .stopped⟩ }

variable {watch after : Watch} {deed : Deed}

theorem hear_takes {receipt : Receipt} {signals : Signals}
    (stage : watch.monitor.stage = .waiting)
    (received : watch.scene.signals.receive = some (receipt, signals)) :
    Takes watch (.received receipt)
      { watch.setSignals signals with
        monitor := (Monitor.hear receipt signals watch.monitor watch.scene).2.1 } := by
  cases receipt with
  | lagged missed =>
      -- The monitor is put back to waiting, where it was.
      have same : (Monitor.hear (.lagged missed) signals watch.monitor watch.scene).2.1 =
          watch.monitor := congrArg (Monitor.mk watch.monitor.timer) stage.symm
      rw [same]
      exact .lag missed signals stage received
  | signal => exact .leave .signal signals stage received nofun
  | closed => exact .leave .closed signals stage received nofun

theorem take_takes {tickFirst : Bool} (step : watch.take tickFirst = some (deed, after)) :
    Takes watch deed after := by
  simp only [take, Monitor.step, Option.map_eq_some_iff, Prod.exists] at step
  obtain ⟨_, monitor, scene, step, same⟩ := step
  cases same
  cases stage : watch.monitor.stage with
  | stopped => simp [stage] at step
  | probing answers last =>
      simp only [stage, Option.ite_none_right_eq_some, Option.some.injEq] at step
      obtain ⟨ended, step⟩ := step
      cases step
      exact .finish answers last stage ended
  | waiting =>
      simp only [stage] at step
      split at step
      · simp only [decide_eq_true_eq, Option.ite_none_right_eq_some, Option.some.injEq] at step
        obtain ⟨due, step⟩ := step
        cases step
        exact .probe _ _ stage due rfl
      · next receipt signals received =>
          split at step
          · next first =>
              cases step
              exact .probe _ _ stage (by simpa using (Bool.and_eq_true_iff.mp first).1) rfl
          · cases step
            exact hear_takes stage received

inductive Idle (watch : Watch) : Prop
  | stopped (stage : watch.monitor.stage = .stopped)
  | probing (answers : List (NodeId × Bool)) (last : Nat)
      (stage : watch.monitor.stage = .probing answers last) (early : watch.now < last)
  | waiting (stage : watch.monitor.stage = .waiting)
      (early : watch.now < watch.monitor.timer.deadline)
      (silent : watch.scene.signals.receive = none)

theorem idle_of_isIdle (idle : watch.isIdle = true) : watch.Idle := by
  simp only [isIdle, take, Option.isNone_map, Monitor.step] at idle
  cases stage : watch.monitor.stage with
  | stopped => exact .stopped stage
  | probing answers last =>
      refine .probing answers last stage ?_
      simpa [stage] using idle
  | waiting =>
      cases received : watch.scene.signals.receive with
      | none => exact .waiting stage (by simpa [stage, received] using idle) received
      | some receipt => simp [stage, received] at idle

inductive Moves (watch : Watch) : Event → List Act → Watch → Prop
  | act {tickFirst : Bool} (deed : Deed) (after : Watch) (takes : watch.Takes deed after) :
      Moves watch (.act tickFirst) [⟨watch, deed, after⟩] after
  | rest (tickFirst : Bool) : Moves watch (.act tickFirst) [] watch
  | pass (nanos : Nat) (idle : watch.Idle) :
      Moves watch (.pass nanos) [] { watch with now := watch.clockAfter nanos }
  | hold (nanos : Nat) : Moves watch (.pass nanos) [] watch
  | change (change : Change) : Moves watch (.change change) []
      (watch.setRegistry (watch.scene.coordinator.registry.change change))
  | equip (fleet : Fleet) :
      Moves watch (.equip fleet) [] { watch with scene := { watch.scene with fleet } }
  | send : Moves watch .send [] (watch.setSignals watch.scene.signals.send)
  | drop : Moves watch .drop [] (watch.setSignals watch.scene.signals.drop)

theorem moves (watch : Watch) (event : Event) :
    watch.Moves event (watch.taken event) (watch.after event) := by
  cases event with
  | act tickFirst =>
      rw [taken, Watch.after]
      cases step : watch.take tickFirst with
      | none => exact .rest tickFirst
      | some result => exact .act result.1 result.2 (take_takes step)
  | pass nanos =>
      simp only [taken, Watch.after]
      split
      · next idle => exact .pass nanos (idle_of_isIdle idle)
      · exact .hold nanos
  | change change => exact .change change
  | equip fleet => exact .equip fleet
  | send => exact .send
  | drop => exact .drop

/-- What holds at first and is kept by each event holds of every course. -/
theorem run_keeps {Holds : List Act → Watch → Prop} (events : List Event) (first : Watch)
    (start : Holds [] first)
    (keeps : ∀ event ∈ events, ∀ acts watch more after, Holds acts watch →
      Moves watch event more after → Holds (acts ++ more) after) :
    Holds (acts events first) (run events first) := by
  induction events using List.reverseRecOn with
  | nil => exact start
  | append_singleton earlier event ih =>
      have before := ih fun event member => keeps event (List.mem_append_left _ member)
      have last := keeps event List.mem_concat_self _ _ _ _ before (moves _ event)
      rw [acts_append, run_append]
      simpa only [acts, run, List.append_nil] using last

/-- The same of a property of watches alone, which no event ends. -/
theorem run_invariant (Holds : Watch → Prop) {first : Watch} (start : Holds first)
    (keeps : ∀ event watch more after, Holds watch → Moves watch event more after → Holds after)
    (events : List Event) : Holds (run events first) := by
  let Kept (_ : List Act) (watch : Watch) : Prop := Holds watch
  suffices Kept (acts events first) (run events first) from this
  apply run_keeps
  · exact start
  · intro event _ _ watch more after holds moved
    exact keeps event watch more after holds moved

theorem acts_take (events : List Event) (first : Watch) :
    ∀ act ∈ acts events first, act.before.Takes act.deed act.after := by
  let Sound (acts : List Act) (_ : Watch) : Prop :=
    ∀ act ∈ acts, act.before.Takes act.deed act.after
  suffices Sound (acts events first) (run events first) from this
  refine run_keeps events first (fun _ member => absurd member List.not_mem_nil) ?_
  intro event _ acts watch more after before moved act member
  rcases List.mem_append.mp member with earlier | last
  · exact before act earlier
  · cases moved with
    | act deed after takes =>
        cases List.mem_singleton.mp last
        exact takes
    | rest | pass | hold | change | equip | send | drop => contradiction

end Watch

namespace Monitor

open Watch (Event)

/-- Letting the time pass is a course without any event from outside. -/
theorem runBefore_course (stop steps now : Nat) (monitor : Monitor) (scene : Scene) :
    ∃ events : List Event,
      (∀ event ∈ events, event = .act false ∨ ∃ nanos, event = .pass nanos) ∧
      ∃ time, Watch.run events ⟨now, monitor, scene⟩ =
        ⟨time, (runBefore stop steps now monitor scene).1,
          (runBefore stop steps now monitor scene).2⟩ := by
  induction steps generalizing now monitor scene with
  | zero => exact ⟨[], nofun, now, rfl⟩
  | succ steps ih =>
      rw [runBefore]
      cases step : Monitor.step now false monitor scene with
      | some result =>
          obtain ⟨deed, next, left⟩ := result
          obtain ⟨events, inside, time, ran⟩ := ih now next left
          refine ⟨.act false :: events, ?_, time, ?_⟩
          · exact List.forall_mem_cons.mpr ⟨.inl rfl, inside⟩
          · simp only [Watch.run, Watch.after, Watch.take, step, Option.map_some, ran]
      | none =>
          dsimp only
          split
          · exact ⟨[], nofun, now, rfl⟩
          · next time next =>
              split
              · next later =>
                  obtain ⟨events, inside, last, ran⟩ := ih time monitor scene
                  have early : now < time := by
                    simp only [Bool.and_eq_true, decide_eq_true_eq] at later
                    exact later.1
                  refine ⟨.pass (time - now) :: events, ?_, last, ?_⟩
                  · exact List.forall_mem_cons.mpr ⟨.inr ⟨_, rfl⟩, inside⟩
                  · have clock : Watch.clockAfter (time - now) ⟨now, monitor, scene⟩ = time := by
                      simp only [Watch.clockAfter, next]
                      omega
                    simp only [Watch.run, Watch.after, Watch.isIdle, Watch.take, step,
                      Option.map_none, Option.isNone_none, if_true, clock, ran]
              · exact ⟨[], nofun, now, rfl⟩

end Monitor

end RingCache.Cluster
