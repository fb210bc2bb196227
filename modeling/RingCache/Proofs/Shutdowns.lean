import Mathlib.Data.List.Chain
import RingCache.Proofs.MonitorCourses

/-!
How the monitor hears of a shutdown. A signal that was sent is before the receiver until it leaves:
one that falls behind is told so, and what the channel still keeps comes next. So a monitor that runs
has something to receive from the first signal on, whatever it does in the meantime; and it leaves
with what it receives, the first notice of a lag apart.
-/

namespace RingCache.Cluster

namespace Signals

inductive Receives (signals : Signals) : Receipt → Signals → Prop
  | lagged (behind : signals.capacity < signals.sent - signals.taken) :
      Receives signals (.lagged (signals.sent - signals.taken - signals.capacity))
        { signals with taken := signals.sent - signals.capacity }
  | signal (ahead : signals.taken < signals.sent)
      (kept : signals.sent - signals.taken ≤ signals.capacity) :
      Receives signals .signal { signals with taken := signals.taken + 1 }
  | closed (drained : signals.sent ≤ signals.taken) (gone : signals.isOpen = false) :
      Receives signals .closed signals

variable {signals later : Signals} {receipt : Receipt}

theorem receives (received : signals.receive = some (receipt, later)) :
    signals.Receives receipt later := by
  simp only [receive] at received
  split at received
  · next behind =>
      -- What is skipped is what the channel no longer keeps.
      have taken : signals.taken + (signals.sent - signals.taken - signals.capacity) =
          signals.sent - signals.capacity := by omega
      rw [taken] at received
      cases received
      exact .lagged behind
  · next kept =>
      split at received
      · next ahead =>
          cases received
          exact .signal (by omega) (by omega)
      · next drained =>
          split at received
          · contradiction
          · next gone =>
              cases received
              exact .closed (by omega) (Bool.eq_false_of_not_eq_true gone)

theorem Receives.sender (receives : signals.Receives receipt later) :
    later.sent = signals.sent ∧ later.isOpen = signals.isOpen := by
  cases receives with
  | lagged | signal | closed => exact ⟨rfl, rfl⟩

theorem receive_eq_none_iff :
    signals.receive = none ↔ signals.sent ≤ signals.taken ∧ signals.isOpen = true := by
  simp only [receive]
  constructor
  · intro silent
    split at silent
    · contradiction
    · split at silent
      · contradiction
      · split at silent
        · next isOpen => exact ⟨by omega, isOpen⟩
        · contradiction
  · rintro ⟨drained, isOpen⟩
    rw [if_neg (by omega), if_neg (by omega), if_pos isOpen]

theorem receive_fresh (capacity : Nat) : (fresh capacity).receive = none :=
  receive_eq_none_iff.mpr ⟨Nat.le_refl 0, rfl⟩

/-- How many receipts at most are before a receiver that goes on until it is not told of a lag, if
no more signals are sent. -/
def backlog (signals : Signals) : Nat :=
  if signals.capacity < signals.sent - signals.taken then 2 else 1

theorem backlog_bounds (signals : Signals) : 0 < signals.backlog ∧ signals.backlog ≤ 2 := by
  rw [backlog]
  split <;> decide

theorem Receives.backlog_lt {missed : Nat} (receives : signals.Receives (.lagged missed) later) :
    later.backlog < signals.backlog := by
  cases receives with
  | lagged behind =>
      -- All that is left is kept, so there is no second notice.
      have caught : ¬signals.capacity < signals.sent - (signals.sent - signals.capacity) := by omega
      rw [backlog, backlog, if_pos behind, if_neg caught]
      decide

end Signals

namespace Watch

def receiptOf (act : Act) : Option Receipt :=
  match act.deed with
  | .received receipt => some receipt
  | _ => none

def receipts (acts : List Act) : List Receipt := acts.filterMap receiptOf

def Departs (act : Act) : Prop :=
  ∃ receipt, act.deed = .received receipt ∧ ∀ missed, receipt ≠ .lagged missed

def Called (watch : Watch) : Prop :=
  0 < watch.scene.signals.sent ∨ watch.scene.signals.isOpen = false

variable {watch after : Watch} {deed : Deed}

theorem Takes.running (takes : watch.Takes deed after) : watch.monitor.stage ≠ .stopped := by
  cases takes with
  | finish answers last stage | probe probes fleet stage | lag missed signals stage
  | leave receipt signals stage =>
      rw [stage]
      exact nofun

theorem Takes.departs_iff (takes : watch.Takes deed after) :
    after.monitor.stage = .stopped ↔ Departs ⟨watch, deed, after⟩ := by
  cases takes with
  | leave receipt signals stage received ends => exact ⟨fun _ => ⟨receipt, rfl, ends⟩, fun _ => rfl⟩
  | lag missed signals stage received =>
      constructor
      · intro stopped
        cases stage.symm.trans stopped
      · rintro ⟨receipt, same, ends⟩
        cases same
        exact absurd rfl (ends missed)
  | finish | probe =>
      constructor
      · exact nofun
      · rintro ⟨receipt, same, -⟩
        cases same

theorem stopped_idle (stopped : watch.monitor.stage = .stopped) (tickFirst : Bool) :
    watch.take tickFirst = none := by
  simp [take, Monitor.step, stopped]

theorem stopped_rests (stopped : watch.monitor.stage = .stopped) (event : Event) :
    watch.taken event = [] ∧ (watch.after event).monitor.stage = .stopped := by
  cases event with
  | act tickFirst => simp only [taken, Watch.after, stopped_idle stopped, stopped, and_self]
  | pass nanos =>
      refine ⟨rfl, ?_⟩
      simp only [Watch.after]
      split <;> exact stopped
  | change | equip | send | drop => exact ⟨rfl, stopped⟩

theorem stopped_stays (events : List Event) (stopped : watch.monitor.stage = .stopped) :
    acts events watch = [] ∧ (run events watch).monitor.stage = .stopped := by
  induction events generalizing watch with
  | nil => exact ⟨rfl, stopped⟩
  | cons event rest ih =>
      obtain ⟨quiet, still⟩ := stopped_rests stopped event
      obtain ⟨nothing, last⟩ := ih still
      exact ⟨by rw [acts, quiet, nothing, List.append_nil], last⟩

/-- The monitor has left when it has taken a step with which it leaves. -/
theorem stopped_iff (events : List Event) (first : Watch)
    (running : first.monitor.stage ≠ .stopped) :
    (run events first).monitor.stage = .stopped ↔ ∃ act ∈ acts events first, Departs act := by
  let Told (acts : List Act) (watch : Watch) : Prop :=
    watch.monitor.stage = .stopped ↔ ∃ act ∈ acts, Departs act
  suffices Told (acts events first) (run events first) from this
  apply run_keeps
  · constructor
    · exact fun stopped => absurd stopped running
    · rintro ⟨act, member, -⟩
      exact absurd member List.not_mem_nil
  · intro event _ acts watch more after told moved
    cases moved with
    | act deed after takes =>
        -- The monitor took this step, so it has not left with one before it.
        have before : ¬∃ act ∈ acts, Departs act := fun left => takes.running (told.mpr left)
        constructor
        · intro stopped
          exact ⟨_, List.mem_concat_self, takes.departs_iff.mp stopped⟩
        · rintro ⟨act, member, departs⟩
          rcases List.mem_append.mp member with earlier | last
          · exact absurd ⟨act, earlier, departs⟩ before
          · cases List.mem_singleton.mp last
            exact takes.departs_iff.mpr departs
    | rest | pass | hold | change | equip | send | drop =>
        rw [List.append_nil]
        exact told

/-- The receiver is not past what was sent, and as long as the monitor runs, not up to it. -/
structure Owing (watch : Watch) : Prop where
  room : 0 < watch.scene.signals.capacity
  within : watch.scene.signals.taken ≤ watch.scene.signals.sent
  ahead : watch.monitor.stage ≠ .stopped → 0 < watch.scene.signals.sent →
    watch.scene.signals.taken < watch.scene.signals.sent

namespace Owing

theorem start (coordinator : Coordinator) (fleet : Fleet) (capacity : Nat) :
    Owing (.start coordinator fleet capacity) where
  room := Nat.pos_of_isPowerOfTwo (Nat.isPowerOfTwo_nextPowerOfTwo capacity)
  within := Nat.le_refl 0
  ahead := fun _ sent => absurd sent (Nat.lt_irrefl 0)

theorem undisturbed (owing : watch.Owing) (signals : after.scene.signals = watch.scene.signals)
    (stage : watch.monitor.stage = .stopped → after.monitor.stage = .stopped) : after.Owing := by
  constructor
  case room => rw [signals]; exact owing.room
  case within => rw [signals]; exact owing.within
  case ahead =>
    intro running
    rw [signals]
    exact owing.ahead fun stopped => running (stage stopped)

theorem takes (owing : watch.Owing) (takes : watch.Takes deed after) : after.Owing := by
  have running := takes.running
  cases takes with
  | finish | probe => exact owing.undisturbed rfl fun stopped => absurd stopped running
  | lag missed signals stage received =>
      have room := owing.room
      cases Signals.receives received with
      | lagged behind =>
          constructor
          case room => exact room
          case within => exact Nat.sub_le _ _
          case ahead =>
            intro _ sent
            exact Nat.sub_lt sent room
  | leave receipt signals stage received ends =>
      cases Signals.receives received with
      | lagged behind => exact absurd rfl (ends _)
      | signal ahead kept => exact ⟨owing.room, ahead, fun running => absurd rfl running⟩
      | closed drained gone => exact ⟨owing.room, owing.within, fun running => absurd rfl running⟩

theorem moves {event : Event} {more : List Act} (owing : watch.Owing)
    (moved : watch.Moves event more after) : after.Owing := by
  cases moved with
  | act deed after takes => exact owing.takes takes
  | send =>
      have within := owing.within
      exact ⟨owing.room, Nat.le_succ_of_le within, fun _ _ => Nat.lt_succ_of_le within⟩
  | drop => exact ⟨owing.room, owing.within, owing.ahead⟩
  | rest | pass | hold | change | equip => exact owing.undisturbed rfl id

theorem run (owing : watch.Owing) (events : List Event) : (run events watch).Owing :=
  run_invariant Owing owing (fun _ _ _ _ owing moved => owing.moves moved) events

theorem receives (owing : watch.Owing) (running : watch.monitor.stage ≠ .stopped)
    (called : watch.Called) : watch.scene.signals.receive ≠ none := by
  intro silent
  obtain ⟨drained, isOpen⟩ := Signals.receive_eq_none_iff.mp silent
  rcases called with sent | gone
  · exact absurd (owing.ahead running sent) (Nat.not_lt.mpr drained)
  · rw [isOpen] at gone
    contradiction

end Owing

namespace Called

theorem takes (called : watch.Called) (takes : watch.Takes deed after) : after.Called := by
  cases takes with
  | finish | probe => exact called
  | lag missed signals stage received | leave receipt signals stage received ends =>
      obtain ⟨sent, isOpen⟩ := (Signals.receives received).sender
      exact called.imp (sent ▸ ·) (isOpen ▸ ·)

theorem moves {event : Event} {more : List Act} (called : watch.Called)
    (moved : watch.Moves event more after) : after.Called := by
  cases moved with
  | act deed after takes => exact called.takes takes
  | send => exact .inl (Nat.succ_pos _)
  | drop => exact .inr rfl
  | rest | pass | hold | change | equip => exact called

theorem run (called : watch.Called) (events : List Event) : (run events watch).Called :=
  run_invariant Called called (fun _ _ _ _ called moved => called.moves moved) events

/-- Whenever it was that the signal was sent or the sender went away. -/
theorem of_mem (events : List Event) (first : Watch) (call : .send ∈ events ∨ .drop ∈ events) :
    (Watch.run events first).Called := by
  rcases call with member | member
  · obtain ⟨earlier, later, rfl⟩ := List.append_of_mem member
    have called : ((Watch.run earlier first).after .send).Called := .inl (Nat.succ_pos _)
    rw [run_append]
    exact called.run later
  · obtain ⟨earlier, later, rfl⟩ := List.append_of_mem member
    have called : ((Watch.run earlier first).after .drop).Called := .inr rfl
    rw [run_append]
    exact called.run later

end Called

/-- Nothing was sent yet, and the sender is there; so the monitor goes on. -/
theorem uncalled_runs (events : List Event) (first : Watch)
    (silent : first.scene.signals.receive = none) (running : first.monitor.stage ≠ .stopped)
    (unsent : .send ∉ events) (undropped : .drop ∉ events) :
    (run events first).monitor.stage ≠ .stopped := by
  let Undisturbed (_ : List Act) (watch : Watch) : Prop :=
    watch.scene.signals.receive = none ∧ watch.monitor.stage ≠ .stopped
  suffices Undisturbed (acts events first) (run events first) from this.2
  apply run_keeps
  · exact ⟨silent, running⟩
  · rintro event member acts watch more after ⟨silent, running⟩ moved
    cases moved with
    | act deed after takes =>
        cases takes with
        | finish | probe => exact ⟨silent, nofun⟩
        | lag missed signals stage received | leave receipt signals stage received =>
            rw [silent] at received
            contradiction
    | send => exact absurd member unsent
    | drop => exact absurd member undropped
    | rest | pass | hold | change | equip => exact ⟨silent, running⟩

def backlog (watch : Watch) : Nat :=
  if watch.monitor.stage = .stopped then 0 else watch.scene.signals.backlog

theorem backlog_stopped (stopped : watch.monitor.stage = .stopped) : watch.backlog = 0 :=
  if_pos stopped

theorem backlog_running (running : watch.monitor.stage ≠ .stopped) :
    watch.backlog = watch.scene.signals.backlog :=
  if_neg running

theorem backlog_le_two (watch : Watch) : watch.backlog ≤ 2 := by
  rw [backlog]
  split
  · exact Nat.zero_le 2
  · exact watch.scene.signals.backlog_bounds.2

theorem stopped_of_backlog (empty : watch.backlog = 0) : watch.monitor.stage = .stopped := by
  by_contra running
  rw [backlog_running running] at empty
  exact absurd watch.scene.signals.backlog_bounds.1 (Nat.not_lt.mpr (Nat.le_of_eq empty))

theorem Takes.backlog_le (takes : watch.Takes deed after) :
    (receipts [⟨watch, deed, after⟩]).length + after.backlog ≤ watch.backlog := by
  have before := backlog_running takes.running
  cases takes with
  | finish | probe =>
      rw [before, backlog_running]
      · exact Nat.le_of_eq (Nat.zero_add _)
      · exact nofun
  | lag missed signals stage received =>
      have running : (watch.setSignals signals).monitor.stage ≠ .stopped := by
        rw [setSignals, stage]
        exact nofun
      rw [before, backlog_running running, Nat.add_comm]
      exact (Signals.receives received).backlog_lt
  | leave =>
      rw [before, backlog_stopped rfl]
      exact watch.scene.signals.backlog_bounds.1

theorem receipts_backlog (events : List Event) (first : Watch) (unsent : .send ∉ events) :
    (receipts (acts events first)).length + (run events first).backlog ≤ first.backlog := by
  let Spent (acts : List Act) (watch : Watch) : Prop :=
    (receipts acts).length + watch.backlog ≤ first.backlog
  suffices Spent (acts events first) (run events first) from this
  apply run_keeps
  · exact Nat.le_of_eq (Nat.zero_add _)
  · intro event member acts watch more after spent moved
    cases moved with
    | act deed after takes =>
        have last := takes.backlog_le
        simp only [Spent, receipts, List.filterMap_append, List.length_append] at spent last ⊢
        omega
    | send => exact absurd member unsent
    | rest | pass | hold | change | equip | drop =>
        rw [List.append_nil]
        exact spent

theorem hears {tickFirst : Bool} {receipt : Receipt} {signals : Signals}
    (waits : watch.monitor.stage = .waiting)
    (received : watch.scene.signals.receive = some (receipt, signals))
    (turn : tickFirst = false ∨ watch.now < watch.monitor.timer.deadline) :
    ∃ after, watch.take tickFirst = some (.received receipt, after) := by
  have passed : (decide (watch.monitor.timer.deadline ≤ watch.now) && tickFirst) = false := by
    rcases turn with rfl | early
    · exact Bool.and_false _
    · rw [decide_eq_false (Nat.not_le.mpr early), Bool.false_and]
  simp [take, Monitor.step, waits, received, passed, Monitor.hear]

/-- With each turn that the receiver gets, less is before it, or the monitor has left. -/
theorem backlog_turn (owing : watch.Owing) (called : watch.Called)
    (waits : watch.monitor.stage = .waiting) :
    (watch.after (.act false)).backlog < watch.backlog ∧
      ((watch.after (.act false)).monitor.stage = .waiting ∨
        (watch.after (.act false)).monitor.stage = .stopped) := by
  have running : watch.monitor.stage ≠ .stopped := by
    rw [waits]
    exact nofun
  obtain ⟨⟨receipt, signals⟩, received⟩ := Option.ne_none_iff_exists'.mp
    (owing.receives running called)
  obtain ⟨after, step⟩ := hears waits received (.inl rfl)
  have same : watch.after (.act false) = after := by simp only [Watch.after, step]
  have takes := take_takes step
  have spent := takes.backlog_le
  rw [same]
  constructor
  · simp only [receipts, receiptOf, List.filterMap_cons, List.filterMap_nil,
      List.length_singleton] at spent
    omega
  · cases takes with
    | lag => exact .inl waits
    | leave => exact .inr rfl

theorem leaves_in_two_turns (owing : watch.Owing) (called : watch.Called)
    (waits : watch.monitor.stage = .waiting) :
    (run [.act false, .act false] watch).monitor.stage = .stopped := by
  have most := watch.backlog_le_two
  obtain ⟨first, waiting | stopped⟩ := backlog_turn owing called waits
  · have owes := owing.moves (moves watch (.act false))
    have calls := called.moves (moves watch (.act false))
    obtain ⟨second, -⟩ := backlog_turn owes calls waiting
    apply stopped_of_backlog
    simp only [run]
    omega
  · exact (stopped_rests stopped (.act false)).2

theorem pass_probing {answers : List (NodeId × Bool)} {last nanos : Nat}
    (probes : watch.monitor.stage = .probing answers last) (ended : last ≤ watch.now + nanos) :
    (watch.after (.pass nanos)).monitor = watch.monitor ∧
      last ≤ (watch.after (.pass nanos)).now := by
  simp only [Watch.after]
  split
  · refine ⟨rfl, ?_⟩
    simp only [clockAfter, Monitor.nextTime, probes]
    omega
  · next busy =>
      refine ⟨rfl, ?_⟩
      by_contra early
      simp [isIdle, take, Monitor.step, probes, early] at busy

/-- A round that is under way ends when its last answer is in, and the monitor waits again. -/
theorem round_ends {answers : List (NodeId × Bool)} {last nanos : Nat}
    (probes : watch.monitor.stage = .probing answers last) (ended : last ≤ watch.now + nanos) :
    (run [.pass nanos, .act false] watch).monitor.stage = .waiting := by
  obtain ⟨same, past⟩ := pass_probing probes ended
  simp only [run]
  rw [Watch.after, take, Monitor.step, same]
  simp only [probes, if_pos past]
  rfl

theorem busy_waits (nanos : Nat) (waits : watch.monitor.stage = .waiting)
    (pending : watch.scene.signals.receive ≠ none) : watch.after (.pass nanos) = watch := by
  simp only [Watch.after]
  split
  · next idle =>
      cases idle_of_isIdle idle with
      | stopped stage => cases waits.symm.trans stage
      | probing answers last stage => cases waits.symm.trans stage
      | waiting stage early silent => exact absurd silent pending
  · rfl

theorem leaves_soon (owing : watch.Owing) (called : watch.Called) (nanos : Nat)
    (ended : ∀ answers last, watch.monitor.stage = .probing answers last →
      last ≤ watch.now + nanos) :
    (run [.pass nanos, .act false, .act false, .act false] watch).monitor.stage = .stopped := by
  cases stage : watch.monitor.stage with
  | stopped => exact (stopped_stays _ stage).2
  | waiting =>
      have running : watch.monitor.stage ≠ .stopped := by
        rw [stage]
        exact nofun
      rw [run, busy_waits nanos stage (owing.receives running called)]
      exact (stopped_stays [.act false] (leaves_in_two_turns owing called stage)).2
  | probing answers last =>
      have waits := round_ends stage (ended answers last stage)
      exact leaves_in_two_turns (owing.run [.pass nanos, .act false])
        (called.run [.pass nanos, .act false]) waits

def answersNow (watch : Watch) : List (NodeId × Bool) :=
  watch.scene.coordinator.registry.nodes.map fun node =>
    (node.id,
      watch.scene.fleet.isWell watch.scene.coordinator.options.healthTimeout node.store)

def Completes (act next : Act) : Prop :=
  ∀ nodes, act.deed = .probed nodes → ∃ report, next.deed = .applied report ∧
    Recorded (answersNow act.before) next.before.scene.coordinator.registry
      next.after.scene.coordinator.registry report

structure Whole (acts : List Act) (watch : Watch) : Prop where
  completed : acts.IsChain Completes
  underway : ∀ act ∈ acts.getLast?, ∀ nodes, act.deed = .probed nodes →
    ∃ last, watch.monitor.stage = .probing (answersNow act.before) last

theorem Whole.start (watch : Watch) : Whole [] watch := by
  refine ⟨.nil, ?_⟩
  intro act member
  cases member

theorem Takes.completes {act : Act} {last : Nat}
    (takes : watch.Takes deed after)
    (stage : watch.monitor.stage = .probing (answersNow act.before) last) :
    ∃ report, deed = .applied report ∧
      Recorded (answersNow act.before) watch.scene.coordinator.registry
        after.scene.coordinator.registry report := by
  cases takes with
  | finish answers last same =>
      cases stage.symm.trans same
      exact ⟨_, rfl, Probes.apply_recorded _ _⟩
  | probe probes fleet waits | lag missed signals waits | leave receipt signals waits =>
      cases stage.symm.trans waits

theorem Takes.underway {nodes : List NodeId} (takes : watch.Takes (.probed nodes) after) :
    ∃ last, after.monitor.stage = .probing (answersNow watch) last := by
  cases takes with
  | probe probes fleet stage due asked =>
      refine ⟨watch.now + probes.duration, ?_⟩
      have answers := Probes.run_answers watch.scene.coordinator.options.healthTimeout
        watch.scene.coordinator.registry.nodes watch.scene.fleet
      rw [asked] at answers
      rw [answers]
      rfl

theorem Whole.moves {acts more : List Act} {event : Event} (whole : Whole acts watch)
    (moved : watch.Moves event more after) : Whole (acts ++ more) after := by
  cases moved with
  | act deed after takes =>
      constructor
      case completed =>
        refine List.isChain_append.mpr ⟨whole.completed, List.isChain_singleton _, ?_⟩
        intro act isLast next isNext nodes probed
        cases isNext
        obtain ⟨last, stage⟩ := whole.underway act isLast nodes probed
        exact takes.completes stage
      case underway =>
        intro act isLast nodes probed
        rw [List.getLast?_concat] at isLast
        cases isLast
        cases probed
        exact takes.underway
  | rest | pass | hold | change | equip | send | drop =>
      rw [List.append_nil]
      exact ⟨whole.completed, whole.underway⟩

structure HeedsShutdown (first : Watch) (earlier later : List Event) : Prop where
  /-- Only with a receipt that is no notice of a lag does a step leave, and with each such one. -/
  leaves : ∀ act ∈ acts earlier first, act.after.monitor.stage = .stopped ↔ Departs act
  left : (run earlier first).monitor.stage = .stopped ↔ ∃ act ∈ acts earlier first, Departs act
  gone : (run earlier first).monitor.stage = .stopped →
    acts later (run earlier first) = [] ∧
      (run later (run earlier first)).monitor.stage = .stopped
  uncalled : .send ∉ earlier → .drop ∉ earlier → (run earlier first).monitor.stage ≠ .stopped
  /-- A call stays until the monitor has left. -/
  kept : .send ∈ earlier ∨ .drop ∈ earlier → (run earlier first).monitor.stage ≠ .stopped →
    (run earlier first).scene.signals.receive ≠ none
  /-- Nothing but a tick that is due is taken before it. -/
  turn : .send ∈ earlier ∨ .drop ∈ earlier → (run earlier first).monitor.stage = .waiting →
    ∀ tickFirst, tickFirst = false ∨
        (run earlier first).now < (run earlier first).monitor.timer.deadline →
      ∃ receipt after, (run earlier first).take tickFirst = some (.received receipt, after)
  /-- Once the round under way is over, two turns are enough. -/
  soon : .send ∈ earlier ∨ .drop ∈ earlier → ∀ nanos,
    (∀ answers last, (run earlier first).monitor.stage = .probing answers last →
      last ≤ (run earlier first).now + nanos) →
    (run [.pass nanos, .act false, .act false, .act false] (run earlier first)).monitor.stage =
      .stopped
  /-- After the last signal the monitor receives twice at most, and has left if it did. -/
  few : .send ∉ later →
    (receipts (acts later (run earlier first))).length ≤ 2 ∧
      ((receipts (acts later (run earlier first))).length = 2 →
        (run later (run earlier first)).monitor.stage = .stopped)
  whole : Whole (acts earlier first) (run earlier first)

/-- Shutdowns are heeded, whenever they come: between rounds or during one, any number of them, and
through a channel that keeps as many of them as it likes. -/
theorem shutdowns_heeded (coordinator : Coordinator) (fleet : Fleet) (capacity : Nat)
    (earlier later : List Event) :
    HeedsShutdown (start coordinator fleet capacity) earlier later := by
  have owing := (Owing.start coordinator fleet capacity).run earlier
  have running : (start coordinator fleet capacity).monitor.stage ≠ .stopped := nofun
  constructor
  case leaves => exact fun act member => (acts_take _ _ act member).departs_iff
  case left => exact stopped_iff earlier _ running
  case gone => exact stopped_stays later
  case uncalled => exact uncalled_runs earlier _ (Signals.receive_fresh capacity) running
  case kept => exact fun call runs => owing.receives runs (.of_mem earlier _ call)
  case turn =>
    intro call waits tickFirst turn
    have runs : (run earlier (start coordinator fleet capacity)).monitor.stage ≠ .stopped := by
      rw [waits]
      exact nofun
    obtain ⟨⟨receipt, signals⟩, received⟩ := Option.ne_none_iff_exists'.mp
      (owing.receives runs (.of_mem earlier _ call))
    exact ⟨receipt, hears waits received turn⟩
  case soon => exact fun call nanos ended => leaves_soon owing (.of_mem earlier _ call) nanos ended
  case few =>
    intro unsent
    have spent := receipts_backlog later (run earlier (start coordinator fleet capacity)) unsent
    have most := (run earlier (start coordinator fleet capacity)).backlog_le_two
    refine ⟨by omega, fun both => stopped_of_backlog ?_⟩
    omega
  case whole =>
    apply run_keeps
    · exact .start _
    · exact fun _ _ _ _ _ _ whole moved => whole.moves moved

-- Three signals while a store takes its time to answer, through a channel that keeps one of them;
-- and then the sender goes away.
def busyCoordinator : Coordinator :=
  ⟨.standard, Registry.replay [.update [.fresh ⟨"a"⟩ "test://a" "a"]] (.new 1 1)⟩

def busyFleet : Fleet :=
  Fleet.empty.setManner "a" fun manner => { manner with health := ⟨true, 45⟩ }

def calledDuringRound : Watch :=
  run [.pass 30000000000, .act false, .send, .send, .send, .drop] (start busyCoordinator busyFleet 1)

def turnsAfterCalls : List Event := [.pass 45000000, .act false, .act true, .act false]

theorem shutdowns_heeded_lagged :
    receipts (acts turnsAfterCalls calledDuringRound) = [.lagged 2, .signal] ∧
      (run turnsAfterCalls calledDuringRound).monitor.stage = .stopped ∧
      (run [.pass 45000000, .act false, .act false, .act false] calledDuringRound).monitor.stage =
        .stopped := by
  have heeds := shutdowns_heeded busyCoordinator busyFleet 1
    [.pass 30000000000, .act false, .send, .send, .send, .drop] turnsAfterCalls
  have both : receipts (acts turnsAfterCalls calledDuringRound) = [.lagged 2, .signal] := by
    decide +kernel
  have two : (receipts (acts turnsAfterCalls calledDuringRound)).length = 2 := by
    rw [both]
    rfl
  have probing : calledDuringRound.monitor.stage = .probing [(⟨"a"⟩, true)] 30045000000 := by
    decide
  have now : calledDuringRound.now = 30000000000 := by decide
  refine ⟨both, ?_, ?_⟩
  · exact (heeds.few (by simp [turnsAfterCalls])).2 two
  · apply heeds.soon (.inl (by simp)) 45000000
    intro answers last stage
    cases probing.symm.trans stage
    exact Nat.le_of_eq (congrArg (· + 45000000) now.symm)

end Watch

end RingCache.Cluster
