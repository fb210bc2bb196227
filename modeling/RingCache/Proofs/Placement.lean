import RingCache.Proofs.PrimaryReads

/-!
Where values are held. As long as the node list and its flags stay as they are, a key has one
replica set. Sets and deletions go there, so whatever calls fail on the way, no other node ever holds
the key; clearing goes to every healthy entry, and no other entry holds anything.

The runs are those of requests between which stores change their manner, which leaves open what
becomes of each single call.
-/

namespace RingCache.Cluster

/-- A write puts nothing under a key but what it sets there. -/
theorem Write.apply_contains (write : Write) (table : Table Bytes) (key : String)
    (held : (write.mutation.apply table).contains key = true) :
    table.contains key = true ∨ ∃ value, write = .set key value := by
  cases write with
  | set other value =>
      by_cases same : key = other
      · exact .inr ⟨value, by rw [same]⟩
      · refine .inl ?_
        simpa [mutation, Mutation.apply, Table.contains, Table.get?_insert, same] using held
  | delete other =>
      refine .inl ?_
      by_cases named : other.isEmpty = true
      · simp [mutation, Mutation.apply, Fleet.deleteEffect, named, Table.contains] at held
      · by_cases same : key = other <;>
          simp_all [mutation, Mutation.apply, Fleet.deleteEffect, Table.contains, Table.get?_erase]
  | clear => simp [mutation, Mutation.apply, Fleet.deleteEffect, Table.contains] at held

def Request.keepsFlags : Request → Bool
  | .check => false
  | .mark _ _ => false
  | _ => true

namespace Deployment

variable {deployment : Deployment}

theorem step_coordinator (request : Request) (deployment : Deployment)
    (keeps : request.keepsFlags = true) :
    (step request deployment).2.coordinator = deployment.coordinator := by
  cases request with
  | check => contradiction
  | mark id healthy => contradiction
  | _ => rfl

/-- A key is held by its replicas alone. -/
def Placed (deployment : Deployment) : Prop :=
  ∀ node ∈ deployment.coordinator.registry.nodes, ∀ key,
    (deployment.fleet.tableOf node.store).contains key = true →
      node ∈ deployment.coordinator.registry.replicas key

theorem Placed.keepsStores (placed : deployment.Placed) (fleet : Fleet)
    (kept : deployment.fleet.KeepsStores fleet) : Placed ⟨deployment.coordinator, fleet⟩ := by
  intro node member key held
  rw [Fleet.tableOf, kept.table node.store] at held
  exact placed node member key held

theorem Placed.write (placed : deployment.Placed) (sound : deployment.Sound) (write : Write) :
    Placed ⟨deployment.coordinator,
      (write.run deployment.coordinator deployment.fleet).2⟩ := by
  intro node member key held
  dsimp only at member held
  rw [sound.write_tableOf write node member] at held
  split at held
  · next reached =>
      -- Only a set puts something new under a key, and it goes to the key's replicas.
      rcases write.apply_contains _ key held with before | ⟨value, rfl⟩
      · exact placed node member key before
      · exact reached.1
  · exact placed node member key held

theorem Placed.step (placed : deployment.Placed) (sound : deployment.Sound) (request : Request)
    (keeps : request.keepsFlags = true) : (step request deployment).2.Placed := by
  cases request with
  | get key => exact placed.keepsStores _ (Coordinator.get_alike _ key _).stores
  | write write => exact placed.write sound write
  | check => contradiction
  | mark id healthy => contradiction
  | behave store manner => exact placed.keepsStores _ (Fleet.setManner_keepsStores _ _ _)

/-- Over a run of such requests the coordinator stays, and so does the placement. -/
theorem Placed.run (placed : deployment.Placed) (sound : deployment.Sound)
    (requests : List Request) (fixed : ∀ request ∈ requests, request.keepsFlags = true) :
    (run requests deployment).coordinator = deployment.coordinator ∧
      (run requests deployment).Placed := by
  induction requests generalizing deployment with
  | nil => exact ⟨rfl, placed⟩
  | cons request rest ih =>
      rw [List.forall_mem_cons] at fixed
      obtain ⟨keeps, fixedRest⟩ := fixed
      obtain ⟨same, later⟩ := ih (placed.step sound request keeps) (step_sound request sound) fixedRest
      exact ⟨same.trans (step_coordinator request deployment keeps), later⟩

theorem Sound.spared (sound : deployment.Sound) (write : Write) (node : Node)
    (member : node ∈ deployment.coordinator.registry.nodes)
    (apart : node ∉ write.targets deployment.coordinator.registry) :
    (write.run deployment.coordinator deployment.fleet).2.tableOf node.store =
      deployment.fleet.tableOf node.store := by
  rw [sound.write_tableOf write node member, if_neg fun reached => apart reached.1]

/-- A write that succeeds has reached all its targets. -/
theorem Sound.reached (sound : deployment.Sound) (write : Write)
    (done : (write.run deployment.coordinator deployment.fleet).1 = .ok ()) (node : Node)
    (target : node ∈ write.targets deployment.coordinator.registry) :
    (write.run deployment.coordinator deployment.fleet).2.tableOf node.store =
      write.mutation.apply (deployment.fleet.tableOf node.store) := by
  have unnamed : node.id ∉ Write.failedNodes
      (write.run deployment.coordinator deployment.fleet).1 := by
    rw [done]
    exact List.not_mem_nil
  rw [sound.failed_iff write node target, Bool.not_eq_false] at unnamed
  rw [sound.write_tableOf write node (Write.mem_targets _ write node target).1,
    if_pos ⟨target, unnamed⟩]

theorem Placed.absent (placed : deployment.Placed) (node : Node)
    (member : node ∈ deployment.coordinator.registry.nodes) (key : String)
    (apart : node ∉ deployment.coordinator.registry.replicas key) :
    (deployment.fleet.tableOf node.store).get? key = none := by
  by_contra held
  exact apart (placed node member key (Option.isSome_iff_ne_none.mpr held))

theorem Placed.set_done (placed : deployment.Placed) (sound : deployment.Sound) (key : String)
    (value : Bytes)
    (done : (deployment.coordinator.set key value deployment.fleet).1 = .ok ()) (node : Node)
    (member : node ∈ deployment.coordinator.registry.nodes) :
    ((deployment.coordinator.set key value deployment.fleet).2.tableOf node.store).get? key =
      if node ∈ deployment.coordinator.registry.replicas key then some value else none := by
  by_cases replica : node ∈ deployment.coordinator.registry.replicas key
  · have left := sound.reached (.set key value) done node replica
    rw [if_pos replica]
    refine (congrArg (Table.get? · key) left).trans ?_
    simp [Write.mutation, Mutation.apply, Table.get?_insert]
  · have left := sound.spared (.set key value) node member replica
    rw [if_neg replica]
    exact (congrArg (Table.get? · key) left).trans (placed.absent node member key replica)

theorem Placed.delete_done (placed : deployment.Placed) (sound : deployment.Sound) (key : String)
    (done : (deployment.coordinator.delete key deployment.fleet).1 = .ok ()) (node : Node)
    (member : node ∈ deployment.coordinator.registry.nodes) :
    ((deployment.coordinator.delete key deployment.fleet).2.tableOf node.store).get? key = none := by
  by_cases replica : node ∈ deployment.coordinator.registry.replicas key
  · have left := sound.reached (.delete key) done node replica
    refine (congrArg (Table.get? · key) left).trans ?_
    simp only [Write.mutation, Mutation.apply, Fleet.deleteEffect]
    split
    · rfl
    · rw [Table.get?_erase, if_pos rfl]
  · have left := sound.spared (.delete key) node member replica
    exact (congrArg (Table.get? · key) left).trans (placed.absent node member key replica)

theorem Placed.clear_done (placed : deployment.Placed) (sound : deployment.Sound)
    (done : (deployment.coordinator.clear deployment.fleet).1 = .ok ()) (node : Node)
    (member : node ∈ deployment.coordinator.registry.nodes) :
    (deployment.coordinator.clear deployment.fleet).2.tableOf node.store = .empty := by
  by_cases healthy : node.healthy = true
  · have target : node ∈ Write.clear.targets deployment.coordinator.registry :=
      (Registry.mem_healthyNodes _ node).mpr ⟨member, healthy⟩
    exact sound.reached .clear done node target
  · -- The node is no target, but it is no replica of any key either.
    have apart : node ∉ Write.clear.targets deployment.coordinator.registry :=
      fun target => healthy ((Registry.mem_healthyNodes _ node).mp target).2
    refine (sound.spared .clear node member apart).trans ?_
    rw [Table.eq_empty_iff]
    intro key
    apply placed.absent node member key
    intro replica
    exact healthy (Registry.mem_replicas _ key node replica).2

/-- After any run, a key is held by none but its replicas. A set that succeeds leaves its value at
all of them, a deletion that succeeds leaves nothing under its key, and a clear that succeeds leaves
nothing at all. -/
theorem copies_at_replicas (nodes : List Node) (options : Options) (fleet : Fleet)
    (ids : (nodes.map Node.id).Nodup) (stores : (nodes.map Node.store).Nodup)
    (inProcess : ∀ node ∈ nodes, (fleet.peer node.store).InProcess)
    (empty : ∀ node ∈ nodes, fleet.tableOf node.store = .empty)
    (requests : List Request) (fixed : ∀ request ∈ requests, request.keepsFlags = true) :
    let start : Deployment := ⟨.new nodes options, fleet⟩
    let now := Deployment.run requests start
    let replicas := start.coordinator.registry.replicas
    (∀ key, ∀ node ∈ nodes, (now.fleet.tableOf node.store).contains key = true →
      node ∈ replicas key) ∧
    (∀ key value, (now.coordinator.set key value now.fleet).1 = .ok () → ∀ node ∈ nodes,
      ((now.coordinator.set key value now.fleet).2.tableOf node.store).get? key =
        if node ∈ replicas key then some value else none) ∧
    (∀ key, (now.coordinator.delete key now.fleet).1 = .ok () → ∀ node ∈ nodes,
      ((now.coordinator.delete key now.fleet).2.tableOf node.store).get? key = none) ∧
    ((now.coordinator.clear now.fleet).1 = .ok () → ∀ node ∈ nodes,
      (now.coordinator.clear now.fleet).2.tableOf node.store = .empty) := by
  intro start now replicas
  have sound : start.Sound := new_sound nodes options fleet ids stores inProcess
  have nothing : start.Placed := by
    intro node member key held
    rw [empty node member] at held
    contradiction
  -- The run leaves the coordinator alone, so the replica sets now are those at the start.
  obtain ⟨same, placed⟩ := nothing.run sound requests fixed
  have soundNow : now.Sound := run_sound requests sound
  have listed : now.coordinator.registry.nodes = nodes := by rw [same]; rfl
  have replicated : now.coordinator.registry.replicas = replicas := by rw [same]
  rw [← listed, ← replicated]
  exact ⟨fun key node member => placed node member key,
    fun key value done node member => placed.set_done soundNow key value done node member,
    fun key done node member => placed.delete_done soundNow key done node member,
    fun done node member => placed.clear_done soundNow done node member⟩

-- The key's primary is flagged unhealthy, so two others are its replicas. One of them refuses a
-- rewrite, and the two differ until the rewrite is tried again.
def placedNodes : List Node :=
  [.fresh ⟨"a"⟩ "test://a" "a", .fresh ⟨"b"⟩ "test://b" "b", .fresh ⟨"c"⟩ "test://c" "c",
    { Node.fresh ⟨"d"⟩ "test://d" "d" with healthy := false }]

theorem new_placedNodes : Coordinator.new placedNodes fewPoints =
    ⟨fewPoints, ⟨1, 2, placedNodes,
      ⟨[⟨604728062, 3⟩, ⟨1261481191, 2⟩, ⟨2908762168, 1⟩, ⟨3699991705, 0⟩]⟩⟩⟩ := by
  have ring : Ring.build (placedNodes.map Node.id) 1 =
      ⟨[⟨604728062, 3⟩, ⟨1261481191, 2⟩, ⟨2908762168, 1⟩, ⟨3699991705, 0⟩]⟩ :=
    Ring.build_eq _ _ _ (by decide +kernel) (by decide +kernel)
  exact congrArg (fun ring => Coordinator.mk fewPoints ⟨1, 2, placedNodes, ring⟩) ring

def refusedRewrite : List Request :=
  [.write (.set "k" [1]), .behave "b" { Manner.serving with set := .fails .noHealthyNode },
    .write (.set "k" [2]), .behave "b" Manner.serving, .write (.delete "j"), .get "k"]

theorem done_of_toOption {result : Except CacheError Unit}
    (shown : result.toOption = some ()) : result = .ok () := by
  cases result with
  | ok _ => rfl
  | error _ => contradiction

theorem copies_at_replicas_refused_rewrite :
    let start : Deployment := ⟨.new placedNodes fewPoints, .empty⟩
    let now := Deployment.run refusedRewrite start
    let holding := fun (fleet : Fleet) =>
      placedNodes.map fun node => (fleet.tableOf node.store).get? "k"
    holding now.fleet = [some [2], some [1], none, none] ∧
      holding (now.coordinator.set "k" [3] now.fleet).2 = [some [3], some [3], none, none] ∧
      holding (now.coordinator.delete "k" now.fleet).2 = [none, none, none, none] := by
  intro start now holding
  have inProcess : ∀ node ∈ placedNodes, (Fleet.empty.peer node.store).InProcess := fun _ _ => rfl
  have empty : ∀ node ∈ placedNodes, Fleet.empty.tableOf node.store = .empty := fun _ _ => rfl
  obtain ⟨_, set, delete, _⟩ := copies_at_replicas placedNodes fewPoints .empty (by decide)
    (by decide) inProcess empty refusedRewrite (by decide)
  have before : holding now.fleet = [some [2], some [1], none, none] := by
    simp only [holding, now, start, new_placedNodes]
    decide +kernel
  have replicas : start.coordinator.registry.replicas "k" = placedNodes.take 2 := by
    simp only [start, new_placedNodes]
    decide +kernel
  have setDone : (now.coordinator.set "k" [3] now.fleet).1 = .ok () := by
    apply done_of_toOption
    simp only [now, start, new_placedNodes]
    decide +kernel
  have deleteDone : (now.coordinator.delete "k" now.fleet).1 = .ok () := by
    apply done_of_toOption
    simp only [now, start, new_placedNodes]
    decide +kernel
  refine ⟨before, ?_, ?_⟩
  · exact (List.map_congr_left (set "k" [3] setDone)).trans (by rw [replicas]; decide)
  · exact (List.map_congr_left (delete "k" deleteDone)).trans (by decide)

end Deployment

end RingCache.Cluster
