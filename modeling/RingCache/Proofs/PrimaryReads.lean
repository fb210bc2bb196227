import RingCache.Proofs.FanOut
import RingCache.Proofs.RingOwners

/-!
What reads of a cluster return. Reads go to the primary alone, and a write that reaches the primary
changes it before the next request, so the last such write decides every later read. Flags, other
keys and other replicas have no part in it.

A run is a list of requests. Between them stores may change the manner in which they answer; as a
request calls a store at most once, this leaves the outcome of every single call open.
-/

namespace RingCache.Cluster

namespace Coordinator

variable (coordinator : Coordinator) (key : String) (fleet : Fleet)

theorem get_alike : fleet.Alike (coordinator.get key fleet).2 := by
  unfold get
  split
  · exact ⟨fun _ => rfl, fun _ => rfl⟩
  · next node _ =>
      split
      · exact fleet.get_alike (some coordinator.timeout) node.store key
      · exact ⟨fun _ => rfl, fun _ => rfl⟩

theorem get_again :
    (coordinator.get key (coordinator.get key fleet).2).1 = (coordinator.get key fleet).1 := by
  cases selected : coordinator.registry.select key with
  | none => simp only [get, selected]
  | some node =>
      cases healthy : node.healthy with
      | false => simp only [get, selected, healthy, Bool.false_eq_true, if_false]
      | true =>
          simp only [get, selected, healthy, if_true]
          rw [fleet.get_again]

/-- A read that succeeds shows what the key's primary holds. -/
theorem get_primary (inProcess : ∀ node ∈ coordinator.registry.nodes, (fleet.peer node.store).InProcess)
    (value : Option Bytes) (read : (coordinator.get key fleet).1 = .ok value) :
    ∃ primary, coordinator.registry.select key = some primary ∧
      value = (fleet.tableOf primary.store).get? key := by
  unfold get at read
  cases selected : coordinator.registry.select key with
  | none => simp [selected] at read
  | some primary =>
      refine ⟨primary, rfl, ?_⟩
      have answer := fleet.get_eq (some coordinator.timeout) primary.store key
        (inProcess primary (coordinator.registry.select_mem key primary selected))
      cases healthy : primary.healthy with
      | false => simp [selected, healthy] at read
      | true =>
          simp only [selected, healthy, if_true, answer] at read
          cases hindered : (fleet.peer primary.store).manner.get.hindrance
              (α := Option Bytes) (some coordinator.timeout) with
          | none =>
              rw [hindered] at read
              exact (Except.ok.inj read).symm
          | some outcome =>
              rw [hindered] at read
              cases outcome with
              | done other => exact absurd hindered (Conduct.hindrance_not_done _ _ other)
              | _ => simp [Outcome.result] at read

end Coordinator

structure Deployment where
  coordinator : Coordinator
  fleet : Fleet

inductive Request where
  | get (key : String)
  | write (write : Write)
  | check
  | mark (id : NodeId) (healthy : Bool)
  | behave (store : String) (manner : Manner)

inductive Response where
  | read (result : Except CacheError (Option Bytes))
  | wrote (result : Except CacheError Unit)
  | checked (report : HealthReport)
  | marked (known : Bool)
  | silent

namespace Deployment

def step (request : Request) (deployment : Deployment) : Response × Deployment :=
  let ⟨coordinator, fleet⟩ := deployment
  match request with
  | .get key =>
      let (result, fleet) := coordinator.get key fleet
      (.read result, ⟨coordinator, fleet⟩)
  | .write write =>
      let (result, fleet) := write.run coordinator fleet
      (.wrote result, ⟨coordinator, fleet⟩)
  | .check =>
      let (report, coordinator, fleet) := coordinator.check fleet
      (.checked report, ⟨coordinator, fleet⟩)
  | .mark id healthy =>
      (.marked (coordinator.registry.knows id), ⟨coordinator.mark id healthy, fleet⟩)
  | .behave store manner => (.silent, ⟨coordinator, fleet.setManner store fun _ => manner⟩)

end Deployment

structure Moment where
  before : Deployment
  request : Request
  response : Response

namespace Deployment

def run : List Request → Deployment → Deployment
  | [], deployment => deployment
  | request :: rest, deployment => run rest (step request deployment).2

def trace : List Request → Deployment → List Moment
  | [], _ => []
  | request :: rest, deployment =>
      let (response, next) := step request deployment
      ⟨deployment, request, response⟩ :: trace rest next

end Deployment

/-- The key's primary was flagged healthy, and the result does not name it as failed. -/
def Moment.reachedPrimary (key : String) (moment : Moment) : Bool :=
  match moment.before.coordinator.registry.select key, moment.response with
  | some primary, .wrote result =>
      primary.healthy && !(Write.failedNodes result).contains primary.id
  | _, _ => false

def Moment.content (key : String) (moment : Moment) : Option (Option Bytes) :=
  match moment.request with
  | .write write => if moment.reachedPrimary key then write.content key else none
  | _ => none

/-- What the last effective write of a key left there, or else what was there at first. -/
def lastContent (key : String) (initial : Option Bytes) (moments : List Moment) : Option Bytes :=
  (moments.filterMap (Moment.content key)).getLast?.getD initial

theorem lastContent_cons (key : String) (initial : Option Bytes) (moment : Moment)
    (rest : List Moment) :
    lastContent key initial (moment :: rest) =
      lastContent key ((moment.content key).getD initial) rest := by
  simp only [lastContent, List.filterMap_cons]
  cases moment.content key with
  | none => rfl
  | some content => cases rest.filterMap (Moment.content key) <;> simp [List.getLast?_cons]

namespace Deployment

structure Sound (deployment : Deployment) : Prop where
  positive : 0 < deployment.coordinator.registry.replicationFactor
  ids : (deployment.coordinator.registry.nodes.map Node.id).Nodup
  stores : (deployment.coordinator.registry.nodes.map Node.store).Nodup
  inProcess : ∀ name ∈ deployment.coordinator.registry.nodes.map Node.store,
    (deployment.fleet.peer name).InProcess

variable {deployment : Deployment}

theorem Sound.target_inProcess (sound : deployment.Sound) (write : Write) (node : Node)
    (member : node ∈ write.targets deployment.coordinator.registry) :
    (deployment.fleet.peer node.store).InProcess :=
  sound.inProcess node.store (List.mem_map_of_mem (Write.mem_targets _ write node member).1)

theorem Sound.separate_targets (sound : deployment.Sound) (write : Write) :
    ((write.targets deployment.coordinator.registry).map Node.store).Nodup :=
  write.targets_stores_nodup _ sound.stores

/-- A target is named as failed exactly if something kept its own task from its effect. -/
theorem Sound.failed_iff (sound : deployment.Sound) (write : Write) (node : Node)
    (target : node ∈ write.targets deployment.coordinator.registry) :
    node.id ∈ Write.failedNodes (write.run deployment.coordinator deployment.fleet).1 ↔
      write.mutation.served deployment.coordinator.timeout
        (deployment.fleet.peer node.store) = false := by
  have here := sound.target_inProcess write node target
  rw [(write.run_exact _ _ (sound.target_inProcess write) (sound.separate_targets write)).1]
  rw [← Bool.not_eq_true, ← Mutation.report_none_iff_served _ _ _ node here, List.mem_map]
  constructor
  · rintro ⟨failure, member, named⟩ unreported
    obtain ⟨other, otherTarget, reported⟩ := List.mem_filterMap.mp member
    have same : other = node := by
      apply List.inj_on_of_nodup_map (write.targets_ids_nodup _ sound.ids) otherTarget target
      rw [← Mutation.report_node _ _ _ other failure reported, named]
    rw [same, unreported] at reported
    contradiction
  · intro reported
    obtain ⟨failure, found⟩ := Option.ne_none_iff_exists'.mp reported
    exact ⟨failure, List.mem_filterMap.mpr ⟨node, target, found⟩,
      Mutation.report_node _ _ _ node failure found⟩

/-- A write changes the tables of its targets that are served. -/
theorem Sound.write_tableOf (sound : deployment.Sound) (write : Write) (node : Node)
    (member : node ∈ deployment.coordinator.registry.nodes) :
    (write.run deployment.coordinator deployment.fleet).2.tableOf node.store =
      if node ∈ write.targets deployment.coordinator.registry ∧
          write.mutation.served deployment.coordinator.timeout
            (deployment.fleet.peer node.store) then
        write.mutation.apply (deployment.fleet.tableOf node.store)
      else deployment.fleet.tableOf node.store := by
  have peers := (write.run_exact _ _ (sound.target_inProcess write)
    (sound.separate_targets write)).2 node.store
  rw [Fleet.tableOf, peers]
  by_cases target : node ∈ write.targets deployment.coordinator.registry
  · rw [if_pos (List.mem_map_of_mem target), Mutation.left_table]
    simp only [target, true_and, Fleet.tableOf]
  · -- The stores are separate, so no other target shares this one.
    have apart : node.store ∉ (write.targets deployment.coordinator.registry).map Node.store := by
      intro shared
      obtain ⟨other, otherTarget, same⟩ := List.mem_map.mp shared
      have equal := List.inj_on_of_nodup_map sound.stores
        (Write.mem_targets _ write other otherTarget).1 member same
      exact target (equal ▸ otherTarget)
    rw [if_neg apart, if_neg fun reached => target reached.1, Fleet.tableOf]

/-- A write changes the primary's table by what it leaves there when it reaches the primary. -/
theorem Sound.write_table (sound : deployment.Sound) (write : Write) (key : String)
    (keyed : write ≠ .delete "") (primary : Node)
    (selected : deployment.coordinator.registry.select key = some primary) :
    let result := write.run deployment.coordinator deployment.fleet
    (result.2.tableOf primary.store).get? key =
      (Moment.content key ⟨deployment, .write write, .wrote result.1⟩).getD
        ((deployment.fleet.tableOf primary.store).get? key) := by
  intro result
  have inRegistry := deployment.coordinator.registry.select_mem key primary selected
  have reached : Moment.reachedPrimary key ⟨deployment, .write write, .wrote result.1⟩ =
      (primary.healthy && !(Write.failedNodes result.1).contains primary.id) := by
    simp only [Moment.reachedPrimary, selected]
  simp only [Moment.content, result] at reached ⊢
  rw [sound.write_tableOf write primary inRegistry, reached]
  by_cases target : primary ∈ write.targets deployment.coordinator.registry
  · have healthy := (Write.mem_targets _ write primary target).2
    have failed := sound.failed_iff write primary target
    cases served : write.mutation.served deployment.coordinator.timeout
        (deployment.fleet.peer primary.store) with
    | true =>
        have unnamed : primary.id ∉ Write.failedNodes
            (write.run deployment.coordinator deployment.fleet).1 := by simp [failed, served]
        simp [target, healthy, unnamed, write.apply_content key _ keyed]
    | false => simp [failed.mpr served]
  · rw [if_neg fun reached => target reached.1]
    split
    · next effective =>
        have healthy := (Bool.and_eq_true _ _ ▸ effective).1
        cases concerned : write.content key with
        | none => rfl
        | some content =>
            exact absurd (write.primary_targeted _ key primary selected healthy sound.positive
              (by simp [concerned])) target
    · rfl

theorem apply_unflagged (answers : List (NodeId × Bool)) (registry : Registry) :
    (Probes.apply answers registry).2.unflagged = registry.unflagged := by
  induction answers generalizing registry with
  | nil => rfl
  | cons answer rest ih =>
      obtain ⟨id, healthy⟩ := answer
      have kept := (ih (registry.mark id healthy)).trans (registry.mark_unflagged id healthy)
      simp only [Probes.apply]
      split
      · exact kept
      · split <;> exact kept

/-- No request replaces the node list. -/
theorem step_unflagged (request : Request) (deployment : Deployment) :
    (step request deployment).2.coordinator.registry.unflagged =
      deployment.coordinator.registry.unflagged := by
  cases request with
  | check => exact apply_unflagged _ _
  | mark id healthy => exact Registry.mark_unflagged _ id healthy
  | _ => rfl

theorem step_sound (request : Request) (sound : deployment.Sound) :
    (step request deployment).2.Sound := by
  have same := step_unflagged request deployment
  have kept := Registry.unflagged_stores same
  refine ⟨?_, ?_, ?_, ?_⟩
  · rw [(Registry.unflagged_fields same).1]; exact sound.positive
  · rw [Registry.unflagged_ids same]; exact sound.ids
  · rw [kept]; exact sound.stores
  · rw [kept]
    intro name member
    have before := sound.inProcess name member
    cases request with
    | get key => exact (Coordinator.get_alike _ key _).stores.inProcess name before
    | write write =>
        have peers := (write.run_exact _ _ (sound.target_inProcess write)
          (sound.separate_targets write)).2 name
        simp only [step]
        rw [peers]
        split
        · exact Mutation.left_inProcess _ _ _
        · exact before
    | check => exact (Probes.run_keepsStores _ _ _).inProcess name before
    | mark id healthy => exact before
    | behave store manner => exact (Fleet.setManner_keepsStores _ _ _).inProcess name before

/-- One request changes what the primary holds under a key only by an effective write of it. -/
theorem step_content (request : Request) (sound : deployment.Sound) (key : String)
    (keyed : request ≠ .write (.delete "")) (primary : Node)
    (selected : deployment.coordinator.registry.select key = some primary) :
    ((step request deployment).2.fleet.tableOf primary.store).get? key =
      (Moment.content key ⟨deployment, request, (step request deployment).1⟩).getD
        ((deployment.fleet.tableOf primary.store).get? key) := by
  have unchanged : ∀ after : Fleet, deployment.fleet.KeepsStores after →
      (after.tableOf primary.store).get? key = (deployment.fleet.tableOf primary.store).get? key :=
    fun after kept => by rw [Fleet.tableOf, kept.table primary.store, Fleet.tableOf]
  cases request with
  | get other => exact unchanged _ (Coordinator.get_alike _ other _).stores
  | write write => exact sound.write_table write key (fun same => keyed (same ▸ rfl)) primary selected
  | check => exact unchanged _ (Probes.run_keepsStores _ _ _)
  | mark id healthy => rfl
  | behave store manner => exact unchanged _ (Fleet.setManner_keepsStores _ _ _)

/-- The invariant of a run: the primary holds what the last effective write left there. -/
theorem run_content (requests : List Request) (sound : deployment.Sound) (key : String)
    (keyed : Request.write (.delete "") ∉ requests) (primary : Node)
    (selected : deployment.coordinator.registry.select key = some primary) :
    ((run requests deployment).fleet.tableOf primary.store).get? key =
      lastContent key ((deployment.fleet.tableOf primary.store).get? key)
        (trace requests deployment) := by
  induction requests generalizing deployment primary with
  | nil => rfl
  | cons request rest ih =>
      rw [List.mem_cons, not_or] at keyed
      obtain ⟨current, next, _, sameStore⟩ :=
        Registry.unflagged_select (step_unflagged request deployment) key primary selected
      have later := ih (step_sound request sound) keyed.2 current next
      rw [sameStore, step_content request sound key (Ne.symm keyed.1) primary selected] at later
      rw [run, later, trace, lastContent_cons]

theorem run_unflagged (requests : List Request) (deployment : Deployment) :
    (run requests deployment).coordinator.registry.unflagged =
      deployment.coordinator.registry.unflagged := by
  induction requests generalizing deployment with
  | nil => rfl
  | cons request rest ih => exact (ih _).trans (step_unflagged request deployment)

theorem run_sound (requests : List Request) (sound : deployment.Sound) :
    (run requests deployment).Sound := by
  induction requests generalizing deployment with
  | nil => exact sound
  | cons request rest ih => exact ih (step_sound request sound)

theorem Sound.read_primary (sound : deployment.Sound) (key : String) (value : Option Bytes)
    (read : (deployment.coordinator.get key deployment.fleet).1 = .ok value) :
    ∃ primary, deployment.coordinator.registry.select key = some primary ∧
      value = (deployment.fleet.tableOf primary.store).get? key :=
  deployment.coordinator.get_primary key deployment.fleet
    (fun node member => sound.inProcess node.store (List.mem_map_of_mem member)) value read

theorem new_sound (nodes : List Node) (options : Options) (fleet : Fleet)
    (ids : (nodes.map Node.id).Nodup) (stores : (nodes.map Node.store).Nodup)
    (inProcess : ∀ node ∈ nodes, (fleet.peer node.store).InProcess) :
    Sound ⟨.new nodes options, fleet⟩ where
  positive := Nat.lt_of_lt_of_le Nat.one_pos (Nat.le_max_right _ 1)
  ids := ids
  stores := stores
  inProcess := by
    intro name member
    obtain ⟨node, inNodes, rfl⟩ := List.mem_map.mp member
    exact inProcess node inNodes

/-- After any run, a read that succeeds returns what the last effective write of its key left at the
key's primary, or what the primary held at first if there was none. -/
theorem reads_track_primary (nodes : List Node) (options : Options) (fleet : Fleet)
    (ids : (nodes.map Node.id).Nodup) (stores : (nodes.map Node.store).Nodup)
    (inProcess : ∀ node ∈ nodes, (fleet.peer node.store).InProcess)
    (requests : List Request) (keyed : Request.write (.delete "") ∉ requests)
    (key : String) (value : Option Bytes) :
    let start : Deployment := ⟨.new nodes options, fleet⟩
    let now := run requests start
    (now.coordinator.get key now.fleet).1 = .ok value →
      ∃ primary, start.coordinator.registry.select key = some primary ∧
        value = lastContent key ((fleet.tableOf primary.store).get? key) (trace requests start) := by
  intro start now read
  have sound : start.Sound := new_sound nodes options fleet ids stores inProcess
  obtain ⟨current, selectedNow, found⟩ := (run_sound requests sound).read_primary key value read
  obtain ⟨primary, selected, _, sameStore⟩ :=
    Registry.unflagged_select (run_unflagged requests start).symm key current selectedNow
  refine ⟨primary, selected, ?_⟩
  rw [found, ← sameStore, run_content requests sound key keyed primary selected]

-- A rewrite that the primary refuses, among flips and writes of other keys.
def twoNodes : List Node := [.fresh ⟨"a"⟩ "test://a" "a", .fresh ⟨"b"⟩ "test://b" "b"]

def fewPoints : Options := { Options.standard with virtualNodes := 1 }

theorem new_twoNodes : Coordinator.new twoNodes fewPoints =
    ⟨fewPoints, ⟨1, 2, twoNodes, ⟨[⟨2908762168, 1⟩, ⟨3699991705, 0⟩]⟩⟩⟩ := by
  have ring : Ring.build (twoNodes.map Node.id) 1 = ⟨[⟨2908762168, 1⟩, ⟨3699991705, 0⟩]⟩ :=
    Ring.build_eq _ _ _ (by decide +kernel) (by decide +kernel)
  exact congrArg (fun ring => Coordinator.mk fewPoints ⟨1, 2, twoNodes, ring⟩) ring

def lostRewrite : List Request :=
  [.write (.set "k" [1]), .behave "b" { Manner.serving with set := .fails .noHealthyNode },
    .write (.set "k" [2]), .mark ⟨"a"⟩ false, .write (.delete "j"), .check]

theorem reads_track_primary_lost_rewrite :
    let start : Deployment := ⟨.new twoNodes fewPoints, .empty⟩
    let now := run lostRewrite start
    (now.coordinator.get "k" now.fleet).1 = .ok (some [1]) ∧
      ∃ primary, start.coordinator.registry.select "k" = some primary ∧
        some [1] = lastContent "k" ((Fleet.empty.tableOf primary.store).get? "k")
          (trace lostRewrite start) := by
  intro start now
  have seen : (now.coordinator.get "k" now.fleet).1.toOption = some (some [1]) := by
    simp only [now, start, new_twoNodes]
    decide +kernel
  have read : (now.coordinator.get "k" now.fleet).1 = .ok (some [1]) := by
    cases answer : (now.coordinator.get "k" now.fleet).1 <;> simp_all [Except.toOption]
  have inProcess : ∀ node ∈ twoNodes, (Fleet.empty.peer node.store).InProcess := fun _ _ => rfl
  exact ⟨read, reads_track_primary twoNodes fewPoints .empty (by decide) (by decide) inProcess
    lostRewrite (by simp [lostRewrite]) "k" (some [1]) read⟩

end Deployment

end RingCache.Cluster
