import Mathlib.Data.List.Chain
import RingCache.Proofs.MonitorCourses

/-!
When rounds of probes start. The timer's next deadline is never more than one interval ahead of the
last start, and never less than one interval behind the last deadline; and no round outlasts the
patience of its probes. So rounds keep their distance from the start of the monitor on, and none
waits for longer than an interval or a round takes.
-/

namespace RingCache.Cluster

theorem Fleet.probe_duration (fleet : Fleet) (patience : Time.Span) (name : String) :
    (fleet.probe name patience).1.2 ≤ patience.toNanos := by
  simp only [probe]
  cases (fleet.peer name).backing with
  | remote client => exact Nat.zero_le _
  | own table =>
      dsimp only
      split
      · next early => exact of_decide_eq_true early
      · exact Nat.le_refl _

theorem Fleet.probe_calls (fleet : Fleet) (patience : Time.Span) (asked name : String) :
    ((fleet.probe asked patience).2.peer name).calls =
      if name = asked then .health :: (fleet.peer name).calls else (fleet.peer name).calls := by
  simp only [probe, note, peer_put]
  split
  · next same => rw [same]
  · rfl

namespace Probes

variable (patience : Time.Span) (nodes : List Node) (fleet : Fleet)

theorem run_duration :
    (run patience nodes fleet).1.duration ≤ patience.toNanos := by
  induction nodes generalizing fleet with
  | nil => exact Nat.zero_le _
  | cons node rest ih =>
      have longest : (run patience (node :: rest) fleet).1.duration =
          max (fleet.probe node.store patience).1.2
            (run patience rest (fleet.probe node.store patience).2).1.duration := rfl
      rw [longest, Nat.max_def]
      split
      · exact ih (fleet.probe node.store patience).2
      · exact fleet.probe_duration patience node.store

/-- Every store is asked once for each node that it stands behind. -/
theorem run_calls (name : String) : ((run patience nodes fleet).2.peer name).calls =
    List.replicate (nodes.countP (·.store = name)) .health ++ (fleet.peer name).calls := by
  induction nodes generalizing fleet with
  | nil => rfl
  | cons node rest ih =>
      have later := ih (fleet.probe node.store patience).2
      rw [fleet.probe_calls] at later
      refine later.trans ?_
      by_cases behind : node.store = name
      · rw [if_pos behind.symm, List.countP_cons_of_pos (by simpa using behind),
          List.replicate_succ', List.append_assoc, List.singleton_append]
      · rw [if_neg (Ne.symm behind), List.countP_cons_of_neg (by simpa using behind)]

end Probes

namespace Watch

def startOf (act : Act) : Option Nat :=
  match act.deed with
  | .probed _ => some act.before.now
  | _ => none

def endOf (act : Act) : Option Nat :=
  match act.deed with
  | .applied _ => some act.before.now
  | _ => none

def starts (acts : List Act) : List Nat := acts.filterMap startOf

def ends (acts : List Act) : List Nat := acts.filterMap endOf

/-- The first start comes after one interval, the start at each place behind as many intervals as
there are places up to it, and each of the others within some time of the one before. -/
structure Spaced (interval most : Nat) (starts : List Nat) : Prop where
  first : ∀ start ∈ starts.head?, start = interval
  floor : ∀ place start, starts[place]? = some start → (place + 1) * interval ≤ start
  next : starts.IsChain fun start later => later ≤ start + most

structure Separate (starts ends : List Nat) : Prop where
  ended : ∀ (place : Nat) finish, ends[place]? = some finish →
    ∃ start, starts[place]? = some start ∧ start ≤ finish
  apart : ∀ (place : Nat) later, starts[place + 1]? = some later →
    ∃ finish, ends[place]? = some finish ∧ finish ≤ later

theorem getElem?_concat_cases {list : List Nat} {last value : Nat} {place : Nat}
    (found : (list ++ [last])[place]? = some value) :
    list[place]? = some value ∨ place = list.length ∧ value = last := by
  rw [List.getElem?_append] at found
  split at found
  · exact .inl found
  · next beyond =>
      obtain ⟨within, same⟩ := List.getElem?_eq_some_iff.mp found
      simp only [List.length_singleton] at within
      refine .inr ⟨by omega, ?_⟩
      rw [← same, List.getElem_singleton]

theorem getElem?_concat_of_some {list : List Nat} {value : Nat} {place : Nat} (last : Nat)
    (found : list[place]? = some value) : (list ++ [last])[place]? = some value := by
  rw [List.getElem?_append_left (List.getElem?_eq_some_iff.mp found).1, found]

theorem Spaced.concat {interval most : Nat} {starts : List Nat} (spaced : Spaced interval most starts)
    (now : Nat) (first : starts = [] → now = interval)
    (floor : (starts.length + 1) * interval ≤ now)
    (next : ∀ last ∈ starts.getLast?, now ≤ last + most) :
    Spaced interval most (starts ++ [now]) := by
  constructor
  case first =>
    intro start member
    cases starts with
    | nil =>
        cases member
        exact first rfl
    | cons earlier rest => exact spaced.first start member
  case floor =>
    intro place start found
    rcases getElem?_concat_cases found with before | ⟨rfl, rfl⟩
    · exact spaced.floor place start before
    · exact floor
  case next =>
    refine List.isChain_append.mpr ⟨spaced.next, List.isChain_singleton now, ?_⟩
    intro last isLast start isNow
    cases isNow
    exact next last isLast

/-- So many rounds at most have started by any time. -/
theorem count_le_of_floor {interval : Nat} {starts : List Nat}
    (floor : ∀ place start, starts[place]? = some start → (place + 1) * interval ≤ start)
    (positive : 0 < interval) (time : Nat) :
    (starts.filter (· ≤ time)).length ≤ time / interval := by
  induction starts using List.reverseRecOn with
  | nil => exact Nat.zero_le _
  | append_singleton earlier last ih =>
      -- The last start that is in time has all the others before it, and is behind as many intervals.
      have before := ih fun place start found => floor place start (getElem?_concat_of_some last found)
      rw [List.filter_append, List.length_append]
      by_cases soon : last ≤ time
      · have all := List.length_filter_le (· ≤ time) earlier
        have reached := floor earlier.length last List.getElem?_concat_length
        have counted : earlier.length + 1 ≤ time / interval :=
          (Nat.le_div_iff_mul_le positive).mpr (Nat.le_trans reached soon)
        simp only [List.filter_cons, soon, decide_true, if_true, List.filter_nil,
          List.length_singleton]
        omega
      · simpa [List.filter_cons, soon] using before

theorem Separate.start {starts ends : List Nat} (separate : Separate starts ends) (now : Nat)
    (counted : ends.length = starts.length) (past : ∀ finish ∈ ends.getLast?, finish ≤ now) :
    Separate (starts ++ [now]) ends := by
  constructor
  case ended =>
    intro place finish found
    obtain ⟨start, there, before⟩ := separate.ended place finish found
    exact ⟨start, getElem?_concat_of_some now there, before⟩
  case apart =>
    intro place later found
    rcases getElem?_concat_cases found with before | ⟨behind, rfl⟩
    · exact separate.apart place later before
    · have within : place < ends.length := by omega
      refine ⟨ends[place], List.getElem?_eq_getElem within, past _ ?_⟩
      rw [List.getLast?_eq_getElem?, counted, ← behind, Nat.add_sub_cancel]
      exact List.getElem?_eq_getElem within

theorem Separate.finish {starts ends : List Nat} (separate : Separate starts ends) (now : Nat)
    (counted : starts.length = ends.length + 1) (past : ∀ start ∈ starts.getLast?, start ≤ now) :
    Separate starts (ends ++ [now]) := by
  constructor
  case ended =>
    intro place finish found
    rcases getElem?_concat_cases found with before | ⟨rfl, rfl⟩
    · exact separate.ended place finish before
    · have within : ends.length < starts.length := by omega
      refine ⟨starts[ends.length], List.getElem?_eq_getElem within, past _ ?_⟩
      rw [List.getLast?_eq_getElem?, counted, Nat.add_sub_cancel]
      exact List.getElem?_eq_getElem within
  case apart =>
    intro place later found
    obtain ⟨finish, there, before⟩ := separate.apart place later found
    exact ⟨finish, getElem?_concat_of_some now there, before⟩

variable {watch : Watch}

theorem le_clockAfter (idle : watch.Idle) (nanos : Nat) : watch.now ≤ watch.clockAfter nanos := by
  rw [clockAfter, Monitor.nextTime]
  cases idle with
  | stopped stage =>
      simp only [stage]
      omega
  | probing answers last stage early =>
      simp only [stage]
      omega
  | waiting stage early silent =>
      simp only [stage]
      omega

theorem clockAfter_le {time : Nat} (nanos : Nat) (next : watch.monitor.nextTime = some time) :
    watch.clockAfter nanos ≤ time := by
  simp only [clockAfter, next]
  omega

/-- A monitor that has nothing to do now will have something to do. -/
theorem Idle.wakes (idle : watch.Idle) (running : watch.monitor.stage ≠ .stopped) :
    ∃ time, watch.monitor.nextTime = some time ∧ watch.now < time := by
  cases idle with
  | stopped stage => exact absurd stage running
  | probing answers last stage early => exact ⟨last, by rw [Monitor.nextTime, stage], early⟩
  | waiting stage early silent =>
      exact ⟨watch.monitor.timer.deadline, by rw [Monitor.nextTime, stage], early⟩

/-- A course so far: its rounds, and what the timer and the stage have to do with the last of them. -/
structure Pacing (interval patience : Nat) (acts : List Act) (watch : Watch) : Prop where
  period : watch.monitor.timer.period = interval
  limit : watch.scene.coordinator.options.healthTimeout.toNanos = patience
  spaced : Spaced interval (max interval patience) (starts acts)
  separate : Separate (starts acts) (ends acts)
  ahead : ((starts acts).length + 1) * interval ≤ watch.monitor.timer.deadline
  fresh : starts acts = [] → watch.monitor.timer.deadline = interval
  near : ∀ start ∈ (starts acts).getLast?,
    start ≤ watch.now ∧ watch.monitor.timer.deadline ≤ start + interval
  past : ∀ finish ∈ (ends acts).getLast?, finish ≤ watch.now
  waiting : watch.monitor.stage = .waiting →
    (ends acts).length = (starts acts).length ∧ (starts acts = [] → watch.now ≤ interval) ∧
      ∀ start ∈ (starts acts).getLast?, watch.now ≤ start + max interval patience
  probing : ∀ answers last, watch.monitor.stage = .probing answers last →
    (starts acts).length = (ends acts).length + 1 ∧ watch.now ≤ last ∧
      ∀ start ∈ (starts acts).getLast?, last ≤ start + patience

namespace Pacing

variable {interval patience : Nat} {acts : List Act} {after : Watch}

theorem start (coordinator : Coordinator) (fleet : Fleet) (capacity : Nat) :
    Pacing coordinator.options.healthInterval.toNanos coordinator.options.healthTimeout.toNanos []
      (.start coordinator fleet capacity) where
  period := rfl
  limit := rfl
  spaced := ⟨nofun, nofun, .nil⟩
  separate := ⟨nofun, nofun⟩
  ahead := by simp [Watch.start, Monitor.start, Timer.start, starts]
  fresh := fun _ => Nat.zero_add _
  near := nofun
  past := nofun
  waiting := fun _ => ⟨rfl, fun _ => Nat.zero_le _, nofun⟩
  probing := nofun

/-- What neither starts nor ends a round leaves everything as it was, unless it stops the monitor. -/
theorem undisturbed {more : List Act} (pacing : Pacing interval patience acts watch)
    (started : starts more = starts acts) (ended : ends more = ends acts)
    (now : after.now = watch.now) (timer : after.monitor.timer = watch.monitor.timer)
    (stage : after.monitor.stage = watch.monitor.stage ∨ after.monitor.stage = .stopped)
    (options : after.scene.coordinator.options = watch.scene.coordinator.options) :
    Pacing interval patience more after := by
  constructor
  case period => rw [timer]; exact pacing.period
  case limit => rw [options]; exact pacing.limit
  case spaced => rw [started]; exact pacing.spaced
  case separate => rw [started, ended]; exact pacing.separate
  case ahead => rw [started, timer]; exact pacing.ahead
  case fresh => rw [started, timer]; exact pacing.fresh
  case near => rw [started, now, timer]; exact pacing.near
  case past => rw [ended, now]; exact pacing.past
  case waiting =>
    intro waits
    rcases stage with kept | left
    · rw [started, ended, now]
      exact pacing.waiting (kept ▸ waits)
    · rw [left] at waits
      contradiction
  case probing =>
    intro answers last probes
    rcases stage with kept | left
    · rw [started, ended, now]
      exact pacing.probing answers last (kept ▸ probes)
    · rw [left] at probes
      contradiction

/-- Time that passes is time up to the deadline, or up to the end of the round. -/
theorem pass (pacing : Pacing interval patience acts watch) (idle : watch.Idle) (nanos : Nat) :
    Pacing interval patience acts { watch with now := watch.clockAfter nanos } := by
  have later := le_clockAfter idle nanos
  constructor
  case period => exact pacing.period
  case limit => exact pacing.limit
  case spaced => exact pacing.spaced
  case separate => exact pacing.separate
  case ahead => exact pacing.ahead
  case fresh => exact pacing.fresh
  case near =>
    intro start last
    obtain ⟨started, near⟩ := pacing.near start last
    exact ⟨Nat.le_trans started later, near⟩
  case past => exact fun finish last => Nat.le_trans (pacing.past finish last) later
  case waiting =>
    intro stage
    have soon := clockAfter_le nanos
      (show watch.monitor.nextTime = some watch.monitor.timer.deadline by
        rw [Monitor.nextTime, show watch.monitor.stage = .waiting from stage])
    obtain ⟨counted, _, _⟩ := pacing.waiting stage
    refine ⟨counted, fun unbegun => ?_, fun start last => ?_⟩
    · exact Nat.le_trans soon (Nat.le_of_eq (pacing.fresh unbegun))
    · have near := (pacing.near start last).2
      simp only
      omega
  case probing =>
    intro answers last stage
    have soon := clockAfter_le nanos (show watch.monitor.nextTime = some last by
      rw [Monitor.nextTime, show watch.monitor.stage = .probing answers last from stage])
    obtain ⟨counted, _, near⟩ := pacing.probing answers last stage
    exact ⟨counted, soon, near⟩

theorem finish (pacing : Pacing interval patience acts watch) (answers : List (NodeId × Bool))
    (last : Nat) (stage : watch.monitor.stage = .probing answers last)
    (report : HealthReport) (now : after.now = watch.now)
    (monitor : after.monitor = ⟨watch.monitor.timer, .waiting⟩)
    (options : after.scene.coordinator.options = watch.scene.coordinator.options) :
    Pacing interval patience (acts ++ [⟨watch, .applied report, after⟩]) after := by
  obtain ⟨counted, early, near⟩ := pacing.probing answers last stage
  have same : starts (acts ++ [⟨watch, .applied report, after⟩]) = starts acts := by
    simp [starts, startOf]
  have more : ends (acts ++ [⟨watch, .applied report, after⟩]) = ends acts ++ [watch.now] := by
    simp [ends, endOf]
  constructor
  case period => rw [monitor]; exact pacing.period
  case limit => rw [options]; exact pacing.limit
  case spaced => rw [same]; exact pacing.spaced
  case separate =>
    rw [same, more]
    exact pacing.separate.finish watch.now counted fun start last => (pacing.near start last).1
  case ahead => rw [same, monitor]; exact pacing.ahead
  case fresh => rw [same, monitor]; exact pacing.fresh
  case near => rw [same, now, monitor]; exact pacing.near
  case past =>
    intro finish last
    rw [more, List.getLast?_concat] at last
    cases last
    exact Nat.le_of_eq now.symm
  case waiting =>
    intro _
    rw [same, more, now, List.length_append]
    refine ⟨counted.symm, fun unbegun => ?_, fun start isLast => ?_⟩
    · rw [unbegun] at counted
      contradiction
    · have bound := near start isLast
      omega
  case probing =>
    intro answers last stage
    rw [monitor] at stage
    contradiction

theorem probe (pacing : Pacing interval patience acts watch)
    (stage : watch.monitor.stage = .waiting) (due : watch.monitor.timer.deadline ≤ watch.now)
    (nodes : List NodeId) (answers : List (NodeId × Bool)) (last : Nat)
    (soon : last ≤ watch.now + patience) (begun : watch.now ≤ last) (now : after.now = watch.now)
    (monitor : after.monitor = ⟨watch.monitor.timer.takenAt watch.now, .probing answers last⟩)
    (options : after.scene.coordinator.options = watch.scene.coordinator.options) :
    Pacing interval patience (acts ++ [⟨watch, .probed nodes, after⟩]) after := by
  obtain ⟨counted, first, waited⟩ := pacing.waiting stage
  have more : starts (acts ++ [⟨watch, .probed nodes, after⟩]) = starts acts ++ [watch.now] := by
    simp [starts, startOf]
  have same : ends (acts ++ [⟨watch, .probed nodes, after⟩]) = ends acts := by
    simp [ends, endOf]
  have ahead := pacing.ahead
  have period := pacing.period
  -- A late tick moves the deadline on, but not further than an interval from now.
  have next : watch.monitor.timer.deadline + interval ≤ after.monitor.timer.deadline ∧
      after.monitor.timer.deadline ≤ watch.now + interval := by
    rw [monitor, Timer.takenAt, period]
    dsimp only
    split <;> omega
  constructor
  case period => rw [monitor]; exact pacing.period
  case limit => rw [options]; exact pacing.limit
  case spaced =>
    rw [more]
    refine pacing.spaced.concat watch.now (fun unbegun => ?_) (Nat.le_trans ahead due) waited
    have fresh := pacing.fresh unbegun
    have early := first unbegun
    omega
  case separate =>
    rw [more, same]
    exact pacing.separate.start watch.now counted pacing.past
  case ahead =>
    rw [more, List.length_append, List.length_singleton, Nat.add_mul _ 1, Nat.one_mul]
    omega
  case fresh => simp [more]
  case near =>
    intro start isLast
    rw [more, List.getLast?_concat] at isLast
    cases isLast
    exact ⟨Nat.le_of_eq now.symm, next.2⟩
  case past => rw [same, now]; exact pacing.past
  case waiting =>
    intro stage
    rw [monitor] at stage
    contradiction
  case probing =>
    intro others final stage
    rw [monitor] at stage
    cases stage
    rw [more, same, now]
    refine ⟨by simp [counted], begun, fun start isLast => ?_⟩
    rw [List.getLast?_concat] at isLast
    cases isLast
    exact soon

theorem receive (pacing : Pacing interval patience acts watch) (receipt : Receipt)
    (now : after.now = watch.now) (timer : after.monitor.timer = watch.monitor.timer)
    (stage : after.monitor.stage = watch.monitor.stage ∨ after.monitor.stage = .stopped)
    (options : after.scene.coordinator.options = watch.scene.coordinator.options) :
    Pacing interval patience (acts ++ [⟨watch, .received receipt, after⟩]) after := by
  apply pacing.undisturbed _ _ now timer stage options
  · simp [starts, startOf]
  · simp [ends, endOf]

theorem takes (pacing : Pacing interval patience acts watch) {deed : Deed}
    (takes : watch.Takes deed after) :
    Pacing interval patience (acts ++ [⟨watch, deed, after⟩]) after := by
  cases takes with
  | finish answers last stage => exact pacing.finish answers last stage _ rfl rfl rfl
  | probe probes fleet stage due asked =>
      have short := Probes.run_duration watch.scene.coordinator.options.healthTimeout
        watch.scene.coordinator.registry.nodes watch.scene.fleet
      rw [asked, pacing.limit] at short
      exact pacing.probe stage due _ probes.answers _ (Nat.add_le_add_left short _)
        (Nat.le_add_right _ _) rfl rfl rfl
  | lag missed signals stage received => exact pacing.receive _ rfl rfl (.inl rfl) rfl
  | leave receipt signals stage received ends => exact pacing.receive _ rfl rfl (.inr rfl) rfl

theorem moves {event : Event} {more : List Act} (pacing : Pacing interval patience acts watch)
    (moved : watch.Moves event more after) : Pacing interval patience (acts ++ more) after := by
  cases moved with
  | act deed after takes => exact pacing.takes takes
  | pass nanos idle =>
      rw [List.append_nil]
      exact pacing.pass idle nanos
  | rest | hold | change | equip | send | drop =>
      rw [List.append_nil]
      exact pacing.undisturbed rfl rfl rfl rfl (.inl rfl) rfl

end Pacing

structure Cadence (interval patience : Nat) (acts : List Act) (watch : Watch) : Prop where
  first : ∀ start ∈ (starts acts).head?, start = interval
  floor : ∀ place start, (starts acts)[place]? = some start → (place + 1) * interval ≤ start
  count : ∀ time, ((starts acts).filter (· ≤ time)).length ≤ time / interval
  next : (starts acts).IsChain fun start later => later ≤ start + max interval patience
  /-- While the monitor runs, the clock does not pass the time of the next start. -/
  due : watch.monitor.stage ≠ .stopped → (starts acts = [] → watch.now ≤ interval) ∧
    ∀ start ∈ (starts acts).getLast?, watch.now ≤ start + max interval patience
  /-- Nor does it stand still: there is something to do now, or a later time at which there is. -/
  awake : watch.monitor.stage ≠ .stopped → watch.isIdle = true →
    ∃ time, watch.monitor.nextTime = some time ∧ watch.now < time
  separate : Separate (starts acts) (ends acts)
  asked : ∀ act ∈ acts, ∀ nodes, act.deed = .probed nodes →
    nodes = act.before.scene.coordinator.registry.nodes.map Node.id ∧
      ∀ name, (act.after.scene.fleet.peer name).calls =
        List.replicate
            (act.before.scene.coordinator.registry.nodes.countP (·.store = name)) .health ++
          (act.before.scene.fleet.peer name).calls
  /-- Only at the start of a round is any store asked. -/
  unasked : ∀ act ∈ acts, (∀ nodes, act.deed ≠ .probed nodes) →
    act.after.scene.fleet = act.before.scene.fleet

theorem Takes.asked {nodes : List NodeId} {after : Watch} (takes : watch.Takes (.probed nodes) after) :
    nodes = watch.scene.coordinator.registry.nodes.map Node.id ∧
      ∀ name, (after.scene.fleet.peer name).calls =
        List.replicate (watch.scene.coordinator.registry.nodes.countP (·.store = name)) .health ++
          (watch.scene.fleet.peer name).calls := by
  cases takes with
  | probe probes fleet stage due asked =>
      refine ⟨rfl, fun name => ?_⟩
      have calls := Probes.run_calls watch.scene.coordinator.options.healthTimeout
        watch.scene.coordinator.registry.nodes watch.scene.fleet name
      rwa [asked] at calls

theorem Takes.unasked {deed : Deed} {after : Watch} (takes : watch.Takes deed after)
    (unprobed : ∀ nodes, deed ≠ .probed nodes) : after.scene.fleet = watch.scene.fleet := by
  cases takes with
  | probe => exact absurd rfl (unprobed _)
  | finish | lag | leave => rfl

theorem Pacing.due {interval patience : Nat} {acts : List Act}
    (pacing : Pacing interval patience acts watch) (running : watch.monitor.stage ≠ .stopped) :
    (starts acts = [] → watch.now ≤ interval) ∧
      ∀ start ∈ (starts acts).getLast?, watch.now ≤ start + max interval patience := by
  cases stage : watch.monitor.stage with
  | stopped => exact absurd stage running
  | waiting => exact (pacing.waiting stage).2
  | probing answers last =>
      obtain ⟨counted, early, near⟩ := pacing.probing answers last stage
      refine ⟨fun unbegun => ?_, fun start isLast => ?_⟩
      · rw [unbegun] at counted
        contradiction
      · have bound := near start isLast
        omega

/-- The rounds of a monitor, whatever happens around it. The first one starts after one interval, each
of the others within an interval or the patience of a probe from the one before, and none before its
multiple of the interval; none overlaps the next; and each asks the store of every node of its
snapshot once. -/
theorem rounds_keep_cadence (coordinator : Coordinator) (fleet : Fleet) (capacity : Nat)
    (events : List Event) (positive : 0 < coordinator.options.healthInterval.toNanos) :
    let first := start coordinator fleet capacity
    Cadence coordinator.options.healthInterval.toNanos coordinator.options.healthTimeout.toNanos
      (acts events first) (run events first) := by
  intro first
  have pacing : Pacing coordinator.options.healthInterval.toNanos
      coordinator.options.healthTimeout.toNanos (acts events first) (run events first) :=
    run_keeps events first (.start coordinator fleet capacity)
      fun _ _ _ _ _ _ pacing moved => pacing.moves moved
  have takes := acts_take events first
  constructor
  case first => exact pacing.spaced.first
  case floor => exact pacing.spaced.floor
  case count => exact count_le_of_floor pacing.spaced.floor positive
  case next => exact pacing.spaced.next
  case due => exact pacing.due
  case awake => exact fun running idle => (idle_of_isIdle idle).wakes running
  case separate => exact pacing.separate
  case asked =>
    intro act member nodes probed
    exact (probed ▸ takes act member).asked
  case unasked => exact fun act member unprobed => (takes act member).unasked unprobed

-- A store whose answers take more than two intervals. The second round starts as soon as the first
-- is over, and the clock cannot pass the third.
def lateCoordinator : Coordinator :=
  ⟨{ Options.standard with healthInterval := .ofMillis 20, healthTimeout := .ofMillis 50 },
    Registry.replay [.update [.fresh ⟨"a"⟩ "test://a" "a"]] (.new 1 1)⟩

def lateFleet : Fleet :=
  Fleet.empty.setManner "a" fun manner => { manner with health := ⟨true, 45⟩ }

def lateRounds : List Event :=
  [.pass 20000000, .act false, .pass 45000000, .act false, .act false]

theorem rounds_keep_cadence_late :
    let first := start lateCoordinator lateFleet 1
    0 < lateCoordinator.options.healthInterval.toNanos ∧
      starts (acts lateRounds first) = [20000000, 65000000] ∧
      ends (acts lateRounds first) = [65000000] ∧
      Cadence 20000000 50000000 (acts lateRounds first) (run lateRounds first) ∧
      (run lateRounds first).now ≤ 65000000 + max 20000000 50000000 := by
  intro first
  have interval : lateCoordinator.options.healthInterval.toNanos = 20000000 := by decide
  have patience : lateCoordinator.options.healthTimeout.toNanos = 50000000 := by decide
  have positive : 0 < lateCoordinator.options.healthInterval.toNanos := by decide
  have begun : starts (acts lateRounds first) = [20000000, 65000000] := by decide
  have cadence : Cadence 20000000 50000000 (acts lateRounds first) (run lateRounds first) := by
    have whole := rounds_keep_cadence lateCoordinator lateFleet 1 lateRounds positive
    rwa [interval, patience] at whole
  have running : (run lateRounds first).monitor.stage ≠ .stopped := by decide
  have ended : ends (acts lateRounds first) = [65000000] := by decide
  have last : 65000000 ∈ (starts (acts lateRounds first)).getLast? := by
    rw [begun]
    rfl
  exact ⟨positive, begun, ended, cadence, (cadence.due running).2 65000000 last⟩

end Watch

end RingCache.Cluster
