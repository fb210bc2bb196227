import RingCache.Proofs.Calls
import RingCache.Proofs.RegistryChanges

/-!
What a health round leaves behind. Its answers are those of a snapshot, and they are applied by id
to whatever registry is there when the last of them is in. An id may have several entries on either
side: all that are registered get the answer that came last, and each answer is reported for itself.
The node list and its ring are what the last update made them.
-/

namespace RingCache.Cluster

/-- The answer that stands for an id: the last of those under it. -/
def lastAnswer (id : NodeId) : List (NodeId × Bool) → Option Bool
  | [] => none
  | (name, healthy) :: rest => (lastAnswer id rest).or (if name = id then some healthy else none)

def Node.told (answers : List (NodeId × Bool)) (node : Node) : Node :=
  { node with healthy := (lastAnswer node.id answers).getD node.healthy }

theorem lastAnswer_none (id : NodeId) (answers : List (NodeId × Bool))
    (unasked : id ∉ answers.map (·.1)) : lastAnswer id answers = none := by
  induction answers with
  | nil => rfl
  | cons first rest ih =>
      rw [List.map_cons, List.mem_cons, not_or] at unasked
      rw [lastAnswer, ih unasked.2, if_neg (Ne.symm unasked.1), Option.or_none]

theorem lastAnswer_last (earlier later : List (NodeId × Bool)) (id : NodeId) (answer : Bool)
    (last : id ∉ later.map (·.1)) :
    lastAnswer id (earlier ++ (id, answer) :: later) = some answer := by
  induction earlier with
  | nil => simp [lastAnswer, lastAnswer_none id later last]
  | cons first rest ih => simp [lastAnswer, ih]

namespace Probes

theorem apply_registry (answers : List (NodeId × Bool)) (registry : Registry) :
    (apply answers registry).2 =
      { registry with nodes := registry.nodes.map (Node.told answers) } := by
  induction answers generalizing registry with
  | nil =>
      have untold : Node.told [] = id := rfl
      rw [untold, List.map_id]
      rfl
  | cons answer rest ih =>
      obtain ⟨id, healthy⟩ := answer
      have marked : (apply ((id, healthy) :: rest) registry).2 =
          (apply rest (registry.mark id healthy)).2 := by
        simp only [apply]
        split
        · rfl
        · split <;> rfl
      rw [marked, ih, Registry.mark, List.map_map]
      congr 1
      apply List.map_congr_left
      intro node _
      by_cases named : node.id = id
      · subst named
        cases told : lastAnswer node.id rest <;> simp [Node.told, lastAnswer, told]
      · simp [Node.told, lastAnswer, named, Ne.symm named]

theorem knows_mark (registry : Registry) (id other : NodeId) (healthy : Bool) :
    (registry.mark id healthy).knows other = registry.knows other := by
  simp only [Registry.knows, Registry.mark, List.any_map]
  congr 1
  funext node
  by_cases named : node.id = id <;> simp [named]

theorem apply_report (answers : List (NodeId × Bool)) (registry : Registry) :
    (apply answers registry).1 =
      ⟨(answers.filter fun answer => registry.knows answer.1 && answer.2).map (·.1),
        (answers.filter fun answer => registry.knows answer.1 && !answer.2).map (·.1)⟩ := by
  induction answers generalizing registry with
  | nil => rfl
  | cons answer rest ih =>
      obtain ⟨id, healthy⟩ := answer
      have rest := ih (registry.mark id healthy)
      simp only [knows_mark] at rest
      simp only [apply]
      cases registered : registry.knows id <;> cases healthy <;> simp [registered, rest]

end Probes

/-- What is left of some answers once they are applied to a registry: all entries of an id have its
last answer as their flag, the others keep theirs, and nothing else changes; the report names each
answer whose id is registered, in order and under the answer itself. -/
structure Recorded (answers : List (NodeId × Bool)) (before after : Registry)
    (report : HealthReport) : Prop where
  entries : after.nodes.map Node.unflagged = before.nodes.map Node.unflagged
  ring : after.ring = before.ring
  virtualNodes : after.virtualNodes = before.virtualNodes
  replicationFactor : after.replicationFactor = before.replicationFactor
  probed : ∀ earlier id answer later, answers = earlier ++ (id, answer) :: later →
    id ∉ later.map (·.1) → ∀ node ∈ after.nodes, node.id = id → node.healthy = answer
  unprobed : ∀ (place : Nat) (node : Node), before.nodes[place]? = some node →
    node.id ∉ answers.map (·.1) → after.nodes[place]? = some node
  healthy : report.healthy =
    (answers.filter fun (id, answer) => id ∈ before.nodes.map Node.id ∧ answer = true).map (·.1)
  unhealthy : report.unhealthy =
    (answers.filter fun (id, answer) => id ∈ before.nodes.map Node.id ∧ answer = false).map (·.1)

theorem Registry.knows_eq (registry : Registry) (id : NodeId) :
    registry.knows id = decide (id ∈ registry.nodes.map Node.id) := by
  rw [Bool.eq_iff_iff]
  simp [Registry.knows]

theorem Probes.apply_recorded (answers : List (NodeId × Bool)) (registry : Registry) :
    Recorded answers registry (apply answers registry).2 (apply answers registry).1 := by
  constructor
  case entries =>
    rw [apply_registry, List.map_map]
    exact List.map_congr_left fun _ _ => rfl
  case ring => rw [apply_registry]
  case virtualNodes => rw [apply_registry]
  case replicationFactor => rw [apply_registry]
  case probed =>
    rintro earlier id answer later rfl last node member named
    rw [apply_registry] at member
    obtain ⟨original, _, rfl⟩ := List.mem_map.mp member
    obtain rfl : original.id = id := named
    have told := lastAnswer_last earlier later original.id answer last
    exact congrArg (Option.getD · original.healthy) told
  case unprobed =>
    intro place node there unasked
    rw [apply_registry, List.getElem?_map, there]
    simp [Node.told, lastAnswer_none _ _ unasked]
  case healthy => simp [apply_report, Registry.knows_eq]
  case unhealthy => simp [apply_report, Registry.knows_eq]

def Fleet.isWell (fleet : Fleet) (patience : Time.Span) (name : String) : Bool :=
  match (fleet.peer name).backing, (fleet.peer name).manner.health with
  | .remote client, _ => (client.health fleet.wire ()).1
  | .own _, pulse => pulse.healthy && inTime (some patience) (nanosOfMillis pulse.ms)

theorem Fleet.probe_answer (fleet : Fleet) (patience : Time.Span) (name : String) :
    (fleet.probe name patience).1.1 = fleet.isWell patience name := by
  simp only [probe, isWell]
  cases (fleet.peer name).backing with
  | remote client => rfl
  | own table =>
      dsimp only
      split
      · next early => rw [early, Bool.and_true]
      · next late => rw [Bool.eq_false_of_not_eq_true late, Bool.and_false]

/-- A probe asks one store, and no answer depends on what was asked before. -/
theorem Fleet.probe_isWell (fleet : Fleet) (patience span : Time.Span) (asked name : String) :
    (fleet.probe asked patience).2.isWell span name = fleet.isWell span name := by
  have backing := fleet.probe_keepsStores asked patience name
  have manner := (fleet.note_alike asked .health).manners name
  have told : (fleet.probe asked patience).2 = fleet.note asked .health := rfl
  rw [← told] at manner
  simp only [isWell, backing, manner]
  rfl

theorem Probes.run_answers (patience : Time.Span) (nodes : List Node) (fleet : Fleet) :
    (run patience nodes fleet).1.answers =
      nodes.map fun node => (node.id, fleet.isWell patience node.store) := by
  induction nodes generalizing fleet with
  | nil => rfl
  | cons node rest ih =>
      have others : (rest.map fun other =>
          (other.id, (fleet.probe node.store patience).2.isWell patience other.store)) =
          rest.map fun other => (other.id, fleet.isWell patience other.store) := by
        simp only [Fleet.probe_isWell]
      rw [List.map_cons, ← fleet.probe_answer, ← others, ← ih]
      rfl

namespace Coordinator

def RoundMeets (present : Registry) (coordinator : Coordinator) (fleet : Fleet)
    (round : HealthReport × Coordinator × Fleet) : Prop :=
  Recorded (coordinator.registry.nodes.map fun node =>
      (node.id, fleet.isWell coordinator.options.healthTimeout node.store))
    present round.2.1.registry round.1

theorem check_meets (coordinator : Coordinator) (fleet : Fleet) :
    RoundMeets coordinator.registry coordinator fleet (coordinator.check fleet) := by
  rw [RoundMeets, ← Probes.run_answers]
  exact Probes.apply_recorded _ _

theorem checkDuring_meets (coordinator : Coordinator) (after : Nat) (change : Registry → Registry)
    (fleet : Fleet) (inFlight : after < (Probes.run coordinator.options.healthTimeout
      coordinator.registry.nodes fleet).1.duration) :
    RoundMeets (change coordinator.registry) coordinator fleet
      (coordinator.checkDuring after change fleet) := by
  rw [RoundMeets, ← Probes.run_answers]
  simp only [checkDuring, if_pos inFlight]
  exact Probes.apply_recorded _ _

/-- A round whose probes are under way while the registry changes, however often and in whatever
way. What its answers meet are the nodes of the last update and their ring; whatever the answers
are, they are recorded there; and they are what the stores of the snapshot say in time. -/
theorem round_recorded (virtualNodes replicationFactor : Nat) (earlier changes : List Change)
    (options : Options) (fleet : Fleet) (after : Nat)
    (inFlight : after < (Probes.run options.healthTimeout
      (Registry.replay earlier (.new virtualNodes replicationFactor)).nodes fleet).1.duration) :
    let coordinator : Coordinator :=
      ⟨options, Registry.replay earlier (.new virtualNodes replicationFactor)⟩
    let present := Registry.replay changes coordinator.registry
    let installed := Registry.installed [] (earlier ++ changes)
    (present.nodes.map Node.unflagged = installed.map Node.unflagged ∧
      present.ring = .build (installed.map Node.id) (max virtualNodes 1)) ∧
    (∀ answers, Recorded answers present (Probes.apply answers present).2
      (Probes.apply answers present).1) ∧
    RoundMeets present coordinator fleet
      (coordinator.checkDuring after (Registry.replay changes) fleet) ∧
    RoundMeets coordinator.registry coordinator fleet (coordinator.check fleet) := by
  intro coordinator present installed
  have whole : present =
      Registry.replay (earlier ++ changes) (.new virtualNodes replicationFactor) :=
    (Registry.replay_append earlier changes _).symm
  have current : present.Current := whole ▸ Registry.replay_current _ (Registry.new_current _ _)
  have nodes : present.nodes.map Node.unflagged = installed.map Node.unflagged := by
    rw [whole]
    exact Registry.replay_installed (earlier ++ changes) (.new virtualNodes replicationFactor)
  have ids : present.nodes.map Node.id = installed.map Node.id := by
    have unflagged := congrArg (List.map Node.id) nodes
    rwa [List.map_map, List.map_map] at unflagged
  have points : present.virtualNodes = max virtualNodes 1 := by
    rw [whole]
    exact (Registry.replay_settings (earlier ++ changes) _).1
  refine ⟨⟨nodes, ?_⟩, fun answers => Probes.apply_recorded answers present,
    checkDuring_meets coordinator after _ fleet inFlight, check_meets coordinator fleet⟩
  rw [current.ring, ids, points]

-- A round of two entries of one id, a store that is down, and a store that is too slow. While it is
-- under way another list is installed, without the second node and with a new one, and the new node
-- is flagged.
def slowFleet : Fleet :=
  ((Fleet.empty.setManner "a" fun manner => { manner with health := ⟨true, 10⟩ }).setManner "b"
    fun manner => { manner with health := .down }).setManner "c"
    fun manner => { manner with health := ⟨true, 5000⟩ }

def probedNodes : List Node :=
  [.fresh ⟨"a"⟩ "test://a" "a", .fresh ⟨"b"⟩ "test://b" "b", .fresh ⟨"a"⟩ "test://c" "c"]

def laterNodes : List Node := [.fresh ⟨"d"⟩ "test://d" "d", .fresh ⟨"a"⟩ "test://e" "e"]

theorem round_recorded_replaced :
    let coordinator : Coordinator := ⟨.standard, Registry.replay [.update probedNodes] (.new 1 2)⟩
    let round := coordinator.checkDuring (nanosOfMillis 5)
      (Registry.replay [.update laterNodes, .mark ⟨"d"⟩ false]) slowFleet
    nanosOfMillis 5 < (Probes.run Options.standard.healthTimeout probedNodes slowFleet).1.duration ∧
      round.1 = ⟨[⟨"a"⟩], [⟨"a"⟩]⟩ ∧
      round.2.1.registry.nodes.map Node.unflagged = laterNodes ∧
      round.2.1.registry.nodes[0]? = some ⟨⟨"d"⟩, "test://d", 100, false, "d"⟩ ∧
      ∀ node ∈ round.2.1.registry.nodes, node.id = ⟨"a"⟩ → node.healthy = false := by
  intro coordinator round
  have inFlight :
      nanosOfMillis 5 < (Probes.run Options.standard.healthTimeout probedNodes slowFleet).1.duration := by
    decide
  obtain ⟨⟨nodes, -⟩, -, recorded, -⟩ := round_recorded 1 2 [.update probedNodes]
    [.update laterNodes, .mark ⟨"d"⟩ false] .standard slowFleet _ inFlight
  have meets : RoundMeets (Registry.replay [.update laterNodes, .mark ⟨"d"⟩ false]
    coordinator.registry) coordinator slowFleet round := recorded
  have answers : coordinator.registry.nodes.map (fun node =>
      (node.id, slowFleet.isWell coordinator.options.healthTimeout node.store)) =
      [(⟨"a"⟩, true), (⟨"b"⟩, false), (⟨"a"⟩, false)] := by
    decide
  rw [RoundMeets, answers] at meets
  -- What the round was plays no part from here on.
  clear_value round
  refine ⟨inFlight, ?_, ?_, ?_, ?_⟩
  · obtain ⟨⟨healthy, unhealthy⟩, after⟩ := round
    exact congr (congrArg HealthReport.mk meets.healthy) meets.unhealthy
  · exact meets.entries.trans nodes
  · exact meets.unprobed 0 _ rfl (by decide)
  · exact meets.probed [(⟨"a"⟩, true), (⟨"b"⟩, false)] ⟨"a"⟩ false [] rfl (by decide)

end Coordinator

end RingCache.Cluster
