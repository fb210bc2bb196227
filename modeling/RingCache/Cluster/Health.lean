import RingCache.Cluster.Coordinator

/-!
Health rounds. A round probes every node of a snapshot of the registry at once, and applies the
answers by id when the last one is in: a node that has left the registry by then is passed over, and
membership never changes.
-/

namespace RingCache.Cluster

structure HealthReport where
  healthy : List NodeId
  unhealthy : List NodeId
  deriving DecidableEq, Repr

/-- The answers to the probes of a round, and how long the round takes in nanoseconds. -/
structure Probes where
  answers : List (NodeId × Bool)
  duration : Nat
  deriving DecidableEq, Repr

namespace Probes

def run (patience : Time.Span) : List Node → Fleet → Probes × Fleet
  | [], fleet => (⟨[], 0⟩, fleet)
  | node :: rest, fleet =>
      let ((healthy, after), fleet) := fleet.probe node.store patience
      let (probes, fleet) := run patience rest fleet
      (⟨(node.id, healthy) :: probes.answers, max after probes.duration⟩, fleet)

def apply : List (NodeId × Bool) → Registry → HealthReport × Registry
  | [], registry => (⟨[], []⟩, registry)
  | (id, healthy) :: rest, registry =>
      let known := registry.knows id
      let (report, registry) := apply rest (registry.mark id healthy)
      if !known then (report, registry)
      else if healthy then ({ report with healthy := id :: report.healthy }, registry)
      else ({ report with unhealthy := id :: report.unhealthy }, registry)

end Probes

namespace Coordinator

def check (coordinator : Coordinator) (fleet : Fleet) :
    HealthReport × Coordinator × Fleet :=
  let (probes, fleet) :=
    Probes.run coordinator.options.healthTimeout coordinator.registry.nodes fleet
  let (report, registry) := Probes.apply probes.answers coordinator.registry
  (report, { coordinator with registry }, fleet)

/-- A round during which the registry changes, so many nanoseconds after its start. -/
def checkDuring (coordinator : Coordinator) (after : Nat) (change : Registry → Registry)
    (fleet : Fleet) : HealthReport × Coordinator × Fleet :=
  let (probes, fleet) :=
    Probes.run coordinator.options.healthTimeout coordinator.registry.nodes fleet
  -- Answers are applied as soon as the last one is in, so a later change comes on top of them.
  if after < probes.duration then
    let (report, registry) := Probes.apply probes.answers (change coordinator.registry)
    (report, { coordinator with registry }, fleet)
  else
    let (report, registry) := Probes.apply probes.answers coordinator.registry
    (report, { coordinator with registry := change registry }, fleet)

end Coordinator

end RingCache.Cluster
