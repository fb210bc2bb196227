import RingCache.Proofs.FanOut

/-!
What a write reports. Every target is called once and answers as if it were called alone, so the
report is put together from the targets one by one, whatever the others do: the result is a success
exactly if all of them succeed, and what a target has done is not undone for another's failure. It
makes no difference which of the tasks is over first.
-/

namespace RingCache.Cluster

inductive Reason : Joined → String → Prop
  | crashed (report : String) : Reason (.error report) ("task failed: " ++ report)
  | late (limit : Time.Span) :
      Reason (.ok (.error (.timeout limit))) ("operation timed out after " ++ limit.text)
  | connection (endpoint message : String) :
      Reason (.ok (.error (.connection endpoint message)))
        ("connection to " ++ endpoint ++ " failed: " ++ message)
  | backend (message : String) :
      Reason (.ok (.error (.backend message))) ("backend error: " ++ message)
  | codec (fault : CodecFault) :
      Reason (.ok (.error (.codec fault))) ("codec error: " ++ fault.message)
  | config (fault : ConfigFault) :
      Reason (.ok (.error (.config fault))) ("configuration error: " ++ fault.message)
  | emptyKey : Reason (.ok (.error .emptyKey)) "cache key cannot be empty"
  | keyTooLong (length limit : Nat) :
      Reason (.ok (.error (.keyTooLong length limit)))
        ("cache key too long: " ++ toString length ++ " bytes (max " ++ toString limit ++ ")")
  | valueTooLarge (size limit : Nat) :
      Reason (.ok (.error (.valueTooLarge size limit)))
        ("value exceeds max size: size " ++ toString size ++ " exceeds limit " ++ toString limit)
  | noHealthyNode : Reason (.ok (.error .noHealthyNode)) "no healthy node available"
  | nodeUnavailable (node : NodeId) :
      Reason (.ok (.error (.nodeUnavailable node))) ("node unavailable: " ++ node.name)
  | replication (operation : String) (attempted : Nat) (failures : List NodeFailure) :
      Reason (.ok (.error (.replication operation attempted failures)))
        (operation ++ " failed on " ++ toString failures.length ++ "/" ++ toString attempted ++
          " nodes: " ++ "; ".intercalate
            (failures.map fun failure => failure.node.name ++ ": " ++ failure.reason))

theorem Coordinator.failureReason_iff (joined : Joined) (reason : String) :
    failureReason joined = some reason ↔ Reason joined reason := by
  constructor
  · intro told
    rcases joined with report | error | ⟨⟩
    · obtain rfl := Option.some.inj told
      exact .crashed report
    · obtain rfl := Option.some.inj told
      cases error <;> constructor
    · cases told
  · rintro ⟨⟩ <;> rfl

namespace Write

/-- What a write answers and leaves behind, told by the tasks of its targets one by one. -/
structure Accounted (coordinator : Coordinator) (write : Write) (fleet : Fleet)
    (ran : Except CacheError Unit × Fleet) (targets : List Node) : Prop where
  separate : (targets.map Node.store).Nodup
  result :
    let failures := targets.filterMap (write.mutation.report coordinator.timeout fleet)
    ran.1 = if write.unplaced coordinator.registry then .error .noHealthyNode
      else if failures = [] then .ok ()
      else .error (.replication write.operation targets.length failures)
  /-- A failed target is reported under its own id, with the reason in full. -/
  told : ∀ node ∈ targets, ∀ failure,
    write.mutation.report coordinator.timeout fleet node = some failure ↔
      failure.node = node.id ∧
        Reason (write.mutation.alone coordinator.timeout fleet node).1 failure.reason
  succeeds : ran.1 = .ok () ↔ write.unplaced coordinator.registry = false ∧
    ∀ node ∈ targets, (write.mutation.alone coordinator.timeout fleet node).1 = .ok (.ok ())
  called : ∀ node ∈ targets,
    (ran.2.peer node.store).calls = write.mutation.call :: (fleet.peer node.store).calls ∧
      ran.2.peer node.store =
        (write.mutation.alone coordinator.timeout fleet node).2.peer node.store
  uncalled : ∀ name, name ∉ targets.map Node.store → ran.2.peer name = fleet.peer name
  /-- In process, the manner of the store tells the answer, and a failure is without effect. -/
  applied : ∀ node ∈ targets, ∀ table, (fleet.peer node.store).backing = .own table →
    let joined := write.mutation.joined coordinator.timeout (fleet.peer node.store).manner
    (write.mutation.alone coordinator.timeout fleet node).1 = joined ∧
      (joined = .ok (.ok ()) →
        (ran.2.peer node.store).backing = .own (write.mutation.apply table)) ∧
      (joined ≠ .ok (.ok ()) → (ran.2.peer node.store).backing = .own table)
  /-- The report on a node is the same beside any other stores. -/
  unaffected : ∀ (other : Fleet) (node : Node), other.wire = fleet.wire →
    other.peer node.store = fleet.peer node.store →
      write.mutation.report coordinator.timeout other node =
        write.mutation.report coordinator.timeout fleet node

variable (coordinator : Coordinator) (write : Write) (fleet : Fleet)

theorem report_iff (node : Node) (failure : NodeFailure) :
    write.mutation.report coordinator.timeout fleet node = some failure ↔
      failure.node = node.id ∧
        Reason (write.mutation.alone coordinator.timeout fleet node).1 failure.reason := by
  rw [Mutation.report, Option.map_eq_some_iff]
  constructor
  · rintro ⟨reason, told, rfl⟩
    exact ⟨rfl, (Coordinator.failureReason_iff _ reason).mp told⟩
  · rintro ⟨named, reason⟩
    exact ⟨failure.reason, (Coordinator.failureReason_iff _ _).mpr reason, by rw [← named]⟩

/-- At a store in process, the manner of the store tells both the answer and the effect. -/
theorem alone_inProcess (node : Node) (table : Table Bytes)
    (held : (fleet.peer node.store).backing = .own table) :
    let joined := write.mutation.joined coordinator.timeout (fleet.peer node.store).manner
    let left := (write.mutation.alone coordinator.timeout fleet node).2.peer node.store
    (write.mutation.alone coordinator.timeout fleet node).1 = joined ∧
      (joined = .ok (.ok ()) → left.backing = .own (write.mutation.apply table)) ∧
      (joined ≠ .ok (.ok ()) → left.backing = .own table) := by
  have own : (fleet.peer node.store).table = table := by rw [Peer.table, held]
  have inProcess : (fleet.peer node.store).InProcess := by rw [Peer.InProcess, own, held]
  have ran := Task.run_eq coordinator.timeout ⟨0, node.store, write.mutation⟩ fleet inProcess
  simp only [ne_eq, Mutation.joined_done_iff]
  rw [Mutation.alone, ran, Fleet.peer_put, if_pos rfl, Mutation.left, own]
  exact ⟨rfl, fun served => by rw [if_pos served], fun spared => by rw [if_neg spared]⟩

/-- The order in which the tasks of a write come to their ends has no part in what it answers and
leaves behind. -/
theorem runIn_accounted (order : List Task → List Task)
    (permutes : ∀ tasks, (order tasks).Perm tasks)
    (separate : (coordinator.registry.nodes.map Node.store).Nodup) :
    Accounted coordinator write fleet (write.runIn order coordinator fleet)
      (write.targets coordinator.registry) := by
  have stores := write.targets_stores_nodup coordinator.registry separate
  have reached : ∀ node ∈ write.targets coordinator.registry,
      (write.runIn order coordinator fleet).2.peer node.store =
        (write.mutation.alone coordinator.timeout fleet node).2.peer node.store := by
    intro node member
    rw [runIn_eq order permutes]
    exact Coordinator.callAll_alone _ order write.mutation _ fleet permutes stores node member
  have result : (write.runIn order coordinator fleet).1 =
      if write.unplaced coordinator.registry then .error .noHealthyNode
      else if (write.targets coordinator.registry).filterMap
          (write.mutation.report coordinator.timeout fleet) = [] then .ok ()
      else .error (.replication write.operation (write.targets coordinator.registry).length
        ((write.targets coordinator.registry).filterMap
          (write.mutation.report coordinator.timeout fleet))) := by
    have reports : (write.calls order coordinator fleet).1 = _ :=
      Coordinator.callAll_reports _ order write.mutation _ fleet permutes
    simp only [runIn_eq order permutes, reports, List.isEmpty_iff]
  constructor
  case separate => exact stores
  case result => exact result
  case told => exact fun node _ failure => report_iff coordinator write fleet node failure
  case succeeds =>
    have all : (write.targets coordinator.registry).filterMap
        (write.mutation.report coordinator.timeout fleet) = [] ↔
          ∀ node ∈ write.targets coordinator.registry,
            (write.mutation.alone coordinator.timeout fleet node).1 = .ok (.ok ()) := by
      simp only [List.filterMap_eq_nil_iff, Mutation.report_none_iff]
    rw [result, ← all]
    cases write.unplaced coordinator.registry with
    | true => simp
    | false => simp only [Bool.false_eq_true, if_false]; split <;> simp_all
  case called =>
    intro node member
    rw [reached node member]
    exact ⟨Task.run_calls coordinator.timeout ⟨0, node.store, write.mutation⟩ fleet, rfl⟩
  case uncalled =>
    intro name apart
    rw [runIn_eq order permutes]
    exact Coordinator.callAll_other _ order write.mutation _ fleet permutes name apart
  case applied =>
    intro node member table held
    rw [reached node member]
    exact alone_inProcess coordinator write fleet node table held
  case unaffected =>
    intro other node wire same
    have answer := (Task.run_local coordinator.timeout ⟨0, node.store, write.mutation⟩ wire same).1
    rw [Mutation.report, Mutation.report, Mutation.alone, Mutation.alone, answer]

theorem run_accounted (coordinator : Coordinator) (write : Write) (fleet : Fleet)
    (separate : (coordinator.registry.nodes.map Node.store).Nodup) :
    Accounted coordinator write fleet (write.run coordinator fleet)
        (write.targets coordinator.registry) ∧
      ∀ order : List Task → List Task, (∀ tasks, (order tasks).Perm tasks) →
        Accounted coordinator write fleet (write.runIn order coordinator fleet)
          (write.targets coordinator.registry) := by
  refine ⟨?_, fun order permutes => runIn_accounted coordinator write fleet order permutes separate⟩
  rw [run_eq_runIn]
  exact runIn_accounted coordinator write fleet _ (Task.inTurn_perm _ fleet) separate

-- One node serves, one fails, one crashes, one is too slow, and the last is flagged.
def mixedNodes : List Node :=
  [.fresh ⟨"a"⟩ "test://a" "a", .fresh ⟨"b"⟩ "test://b" "b", .fresh ⟨"c"⟩ "test://c" "c",
    .fresh ⟨"d"⟩ "test://d" "d", { Node.fresh ⟨"e"⟩ "test://e" "e" with healthy := false }]

def mixedFleet : Fleet :=
  let filled := (Fleet.empty.write "a" "k" [1]).write "b" "k" [2]
  let refusing := filled.setManner "b" ({ · with delete := .fails (.backend "disk full") })
  let crashing := refusing.setManner "c" ({ · with deleteCrash := some "task 17 panicked" })
  crashing.setManner "d" ({ · with delete := .delays 60000 })

theorem run_accounted_mixed :
    let coordinator := Coordinator.new mixedNodes .standard
    let cleared := Write.clear.run coordinator mixedFleet
    (coordinator.registry.nodes.map Node.store).Nodup ∧
      cleared.1 = .error (.replication "clear" 4
        [⟨⟨"b"⟩, "backend error: disk full"⟩, ⟨⟨"c"⟩, "task failed: task 17 panicked"⟩,
          ⟨⟨"d"⟩, "operation timed out after 5s"⟩]) ∧
      (Write.clear.runIn List.reverse coordinator mixedFleet).1 = cleared.1 ∧
      (cleared.2.tableOf "a").get? "k" = none ∧ (cleared.2.tableOf "b").get? "k" = some [2] ∧
      (cleared.2.peer "e").calls = [] := by
  intro coordinator cleared
  have separate : (coordinator.registry.nodes.map Node.store).Nodup := by
    change (mixedNodes.map Node.store).Nodup
    decide
  have targets : Write.clear.targets coordinator.registry = mixedNodes.take 4 := rfl
  obtain ⟨account, accounts⟩ := run_accounted coordinator .clear mixedFleet separate
  have backwards := accounts List.reverse fun tasks => tasks.reverse_perm
  rw [targets] at account backwards
  have inProcess : ∀ node ∈ mixedNodes.take 4, (mixedFleet.peer node.store).InProcess := by
    simp only [mixedNodes, List.take, List.forall_mem_cons]
    exact ⟨rfl, rfl, rfl, rfl, fun _ member => absurd member List.not_mem_nil⟩
  have applied := fun node member => account.applied node member _ (inProcess node member)
  simp only [mixedNodes, List.take, List.forall_mem_cons] at applied
  obtain ⟨⟨_, emptied, _⟩, ⟨_, _, kept⟩, _⟩ := applied
  have failures : (mixedNodes.take 4).filterMap
      (Write.clear.mutation.report coordinator.timeout mixedFleet) =
      [⟨⟨"b"⟩, "backend error: disk full"⟩, ⟨⟨"c"⟩, "task failed: task 17 panicked"⟩,
        ⟨⟨"d"⟩, "operation timed out after 5s"⟩] := by
    decide +kernel
  have result := account.result
  rw [failures] at result
  refine ⟨separate, result, ?_, ?_, ?_, ?_⟩
  · exact backwards.result.trans account.result.symm
  · have served : (cleared.2.peer "a").backing = .own .empty := emptied rfl
    rw [Fleet.tableOf, Peer.table, served]
    rfl
  · have same : (cleared.2.peer "b").backing = .own (mixedFleet.tableOf "b") :=
      kept fun same => by cases same
    rw [Fleet.tableOf, Peer.table, same]
    rfl
  · exact congrArg Peer.calls (account.uncalled "e" (by decide))

end Write

end RingCache.Cluster
