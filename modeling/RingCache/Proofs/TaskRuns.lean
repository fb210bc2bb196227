import Mathlib.Data.List.Basic
import RingCache.Cluster.Task
import RingCache.Proofs.Calls

/-!
Runs of tasks. A task sees its own store, and nothing that a task does to a store has a say in what
other tasks answer. So tasks may come to their ends in any order: each tells what it would tell alone,
and joining their handles puts the answers in the order of the handles.
-/

namespace RingCache.Cluster

namespace Mutation

variable (mutation : Mutation) (timeout : Time.Span)

/-- What the handle of a write's task tells at a store in process, which answers in this manner. -/
def joined (manner : Manner) : Joined :=
  match mutation.crash manner, mutation.conduct manner with
  | some report, _ => .error report
  | none, .serves => .ok (.ok ())
  | none, .delays ms =>
      if inTime (some timeout) (nanosOfMillis ms) then .ok (.ok ())
      else .ok (.error (.timeout timeout))
  | none, .fails error => .ok (.error error)

variable (peer : Peer)

def served : Bool :=
  (mutation.crash peer.manner).isNone && (mutation.hindrance (some timeout) peer).isNone

def left : Peer :=
  { peer with
    calls := mutation.call :: peer.calls
    backing := .own (if mutation.served timeout peer then mutation.apply peer.table
      else peer.table) }

@[simp] theorem left_inProcess : (mutation.left timeout peer).InProcess := rfl

theorem left_table : (mutation.left timeout peer).table =
    if mutation.served timeout peer then mutation.apply peer.table else peer.table := rfl

theorem served_congr {left right : Peer} (same : left.manner = right.manner) :
    mutation.served timeout left = mutation.served timeout right := by
  rw [served, served, hindrance, hindrance, same]

theorem joined_eq : mutation.joined timeout peer.manner =
    match mutation.crash peer.manner with
    | some report => .error report
    | none => .ok (((mutation.hindrance (some timeout) peer).getD (.done ())).result timeout) := by
  unfold joined hindrance
  cases mutation.crash peer.manner with
  | some report => rfl
  | none =>
      cases mutation.conduct peer.manner with
      | delays ms => simp only [Conduct.hindrance]; split <;> rfl
      | _ => rfl

/-- The handle tells of a success exactly if nothing kept the task from its effect. -/
theorem joined_done_iff : mutation.joined timeout peer.manner = .ok (.ok ()) ↔
    mutation.served timeout peer = true := by
  unfold joined served hindrance
  cases mutation.crash peer.manner with
  | some report => simp
  | none =>
      cases mutation.conduct peer.manner with
      | delays ms => simp only [Conduct.hindrance]; split <;> simp_all
      | _ => simp [Conduct.hindrance]

end Mutation

namespace Task

variable (timeout : Time.Span) (task : Task) (fleet : Fleet)

theorem run_eq (inProcess : (fleet.peer task.store).InProcess) : task.run timeout fleet =
    (task.mutation.joined timeout (fleet.peer task.store).manner,
      fleet.put task.store (task.mutation.left timeout (fleet.peer task.store))) := by
  unfold run Mutation.left Mutation.served
  rw [task.mutation.joined_eq timeout (fleet.peer task.store)]
  cases task.mutation.crash (fleet.peer task.store).manner with
  | some report =>
      simp only [Fleet.note, Option.isNone_some, Bool.false_and, Bool.false_eq_true, if_false]
      rw [← inProcess]
  | none => simp [fleet.send_eq _ _ _ inProcess, Mutation.after]

theorem run_peer : ∃ backing, backing.client? = (fleet.peer task.store).backing.client? ∧
    (task.run timeout fleet).2 = fleet.put task.store { fleet.peer task.store with
      calls := task.mutation.call :: (fleet.peer task.store).calls, backing } := by
  unfold run
  split
  · exact ⟨_, rfl, rfl⟩
  · exact fleet.send_peer (some timeout) task.store task.mutation

theorem run_steady : fleet.Steady (task.run timeout fleet).2 := by
  obtain ⟨backing, client, ran⟩ := task.run_peer timeout fleet
  rw [ran]
  refine ⟨rfl, fun other => ?_, fun other => ?_⟩ <;> rw [Fleet.peer_put] <;> split
  · next same => rw [same]
  · rfl
  · next same => rw [same, client]
  · rfl

theorem run_calls : ((task.run timeout fleet).2.peer task.store).calls =
    task.mutation.call :: (fleet.peer task.store).calls := by
  obtain ⟨backing, _, ran⟩ := task.run_peer timeout fleet
  rw [ran, Fleet.peer_put, if_pos rfl]

theorem run_other (name : String) (apart : name ≠ task.store) :
    (task.run timeout fleet).2.peer name = fleet.peer name := by
  obtain ⟨backing, _, ran⟩ := task.run_peer timeout fleet
  rw [ran, Fleet.peer_put, if_neg apart]

theorem run_answer {before after : Fleet} (steady : before.Steady after) :
    (task.run timeout after).1 = (task.run timeout before).1 := by
  unfold run
  rw [steady.manners task.store]
  cases task.mutation.crash (before.peer task.store).manner with
  | some report => rfl
  | none =>
      exact congrArg (fun outcome => Except.ok (Outcome.result timeout outcome))
        (Fleet.send_answer _ _ _ steady.wire (steady.manners _) (steady.clients _))

theorem run_local {before after : Fleet} (wire : after.wire = before.wire)
    (same : after.peer task.store = before.peer task.store) :
    (task.run timeout after).1 = (task.run timeout before).1 ∧
      (task.run timeout after).2.peer task.store = (task.run timeout before).2.peer task.store := by
  simp only [run, Mutation.send, Fleet.note, same, wire]
  split <;> exact ⟨rfl, by simp only [Fleet.peer_put, if_true]⟩

theorem runAll_ends (tasks : List Task) : (runAll timeout tasks fleet).1 =
      tasks.map (fun task => (task.handle, (task.run timeout fleet).1)) ∧
    fleet.Steady (runAll timeout tasks fleet).2 := by
  induction tasks generalizing fleet with
  | nil => exact ⟨rfl, Fleet.Steady.refl fleet⟩
  | cons task rest ih =>
      have next := task.run_steady timeout fleet
      obtain ⟨ends, later⟩ := ih (task.run timeout fleet).2
      simp only [runAll, List.map_cons, ends]
      refine ⟨?_, next.trans later⟩
      congr 1
      exact List.map_congr_left fun other _ => by rw [other.run_answer timeout next]

theorem runAll_other (tasks : List Task) (name : String) (apart : name ∉ tasks.map Task.store) :
    (runAll timeout tasks fleet).2.peer name = fleet.peer name := by
  induction tasks generalizing fleet with
  | nil => rfl
  | cons task rest ih =>
      rw [List.map_cons, List.mem_cons, not_or] at apart
      exact (ih _ apart.2).trans (task.run_other timeout fleet name apart.1)

/-- Of tasks at separate stores, each leaves its store as if it were run alone. -/
theorem runAll_alone (tasks : List Task) (separate : (tasks.map Task.store).Nodup) (task : Task)
    (member : task ∈ tasks) : (runAll timeout tasks fleet).2.peer task.store =
      (task.run timeout fleet).2.peer task.store := by
  induction tasks generalizing fleet with
  | nil => contradiction
  | cons first rest ih =>
      rw [List.map_cons, List.nodup_cons] at separate
      obtain ⟨alone, separateRest⟩ := separate
      rcases List.mem_cons.mp member with rfl | later
      · exact runAll_other timeout _ rest task.store alone
      · have apart : task.store ≠ first.store := fun same =>
          alone (same ▸ List.mem_map_of_mem later)
        refine (ih _ separateRest later).trans ?_
        exact (task.run_local timeout (first.run_steady timeout fleet).wire
          (first.run_other timeout fleet task.store apart)).2

/-- A store that a mutation reaches holds what the mutation leaves, unless its manner keeps the tasks
there from their effect: how many tasks reach it makes no difference. -/
theorem runAll_content (mutation : Mutation) (content : String → Option (Option Bytes))
    (effect : ∀ (table : Table Bytes) (key : String),
      (mutation.apply table).get? key = (content key).getD (table.get? key))
    (tasks : List Task) (uniform : ∀ task ∈ tasks, task.mutation = mutation)
    (inProcess : ∀ task ∈ tasks, (fleet.peer task.store).InProcess) (name key : String) :
    ((runAll timeout tasks fleet).2.tableOf name).get? key =
      if name ∈ tasks.map Task.store ∧ mutation.served timeout (fleet.peer name) then
        (content key).getD ((fleet.tableOf name).get? key)
      else (fleet.tableOf name).get? key := by
  induction tasks generalizing fleet with
  | nil => simp [runAll]
  | cons task rest ih =>
      rw [List.forall_mem_cons] at inProcess uniform
      obtain ⟨here, others⟩ := inProcess
      obtain ⟨rfl, alike⟩ := uniform
      have next := task.run_steady timeout fleet
      have later := ih (task.run timeout fleet).2 alike fun other member =>
        next.inProcess other.store (others other member)
      simp only [runAll]
      rw [later, task.mutation.served_congr timeout (next.manners name), Fleet.tableOf,
        task.run_eq timeout fleet here, Fleet.peer_put]
      by_cases first : name = task.store
      · subst first
        cases served : task.mutation.served timeout (fleet.peer task.store) with
        | true => cases concerned : content key <;>
            simp [Mutation.left_table, served, effect, concerned, Fleet.tableOf]
        | false => simp [Mutation.left_table, served, Fleet.tableOf]
      · simp [first, Fleet.tableOf]

theorem lookup_of_mem {ends : List (Nat × Joined)} (distinct : (ends.map Prod.fst).Nodup)
    {handle : Nat} {joined : Joined} (member : (handle, joined) ∈ ends) :
    ends.lookup handle = some joined := by
  induction ends with
  | nil => contradiction
  | cons first rest ih =>
      rw [List.map_cons, List.nodup_cons] at distinct
      rcases List.mem_cons.mp member with rfl | later
      · simp
      · have apart : handle ≠ first.1 := fun same =>
          distinct.1 (same ▸ List.mem_map_of_mem later)
        rw [List.lookup_cons, beq_eq_false_iff_ne.mpr apart]
        exact ih distinct.2 later

/-- The handles of tasks tell in their own order what the tasks answer alone, in whatever order they
came to their ends. -/
theorem joinAll_runAll {order tasks : List Task} (reordered : order.Perm tasks)
    (distinct : (tasks.map Task.handle).Nodup) :
    joinAll (tasks.map Task.handle) (runAll timeout order fleet).1 =
      tasks.map fun task => (task.run timeout fleet).1 := by
  have ends := (runAll_ends timeout fleet order).1
  have handles : ((runAll timeout order fleet).1.map Prod.fst).Nodup := by
    rw [ends, List.map_map]
    exact (reordered.map Task.handle).nodup_iff.mpr distinct
  rw [joinAll, List.filterMap_map, ← List.filterMap_eq_map]
  apply List.filterMap_congr
  intro task member
  apply lookup_of_mem handles
  rw [ends]
  exact List.mem_map.mpr ⟨task, reordered.mem_iff.mpr member, rfl⟩

theorem place_perm (tasks : List Task) :
    (inTurn.place timeout fleet task tasks).Perm (task :: tasks) := by
  induction tasks with
  | nil => exact .refl _
  | cons other rest ih =>
      rw [inTurn.place]
      split
      · exact .refl _
      · exact (ih.cons other).trans (.swap task other rest)

theorem inTurn_perm (tasks : List Task) : (inTurn timeout fleet tasks).Perm tasks := by
  induction tasks with
  | nil => exact .refl _
  | cons task rest ih => exact (task.place_perm timeout fleet _).trans (ih.cons task)

end Task

end RingCache.Cluster
