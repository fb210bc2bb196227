import Mathlib.Data.List.Basic
import RingCache.Cache.Strategy
import RingCache.Command.Arguments

/-!
Peers of the command line. A cache reads the name of its strategy without the blanks around it and
in any case, and takes an unknown name for the memory. The command line takes only the one spelling
`memory` for it. So peers become the nodes of the cache under that spelling; under any other one that
stands for the memory they are written into the configuration, and the cache keeps to itself.
-/

namespace RingCache

open Cluster

namespace Strategy

def spelled (name : String) : List Char := (Text.trimChars name.toList).map Char.toLower

theorem ofName_eq (name : String) : ofName name =
    if spelled name = "remote".toList ∨ spelled name = "redis".toList then .remote
    else if spelled name = "distributed".toList then .distributed
    else .memory := by
  have word : (Text.trim name).toLower = String.ofList (spelled name) := by
    apply String.toList_injective
    rw [String.toList_ofList, Text.trim]
    exact String.toList_map.trans (congrArg (List.map Char.toLower) String.toList_ofList)
  simp only [ofName, word, ← String.toList_inj, String.toList_ofList]

theorem ofName_distributed : ofName "distributed" = .distributed := by
  rw [ofName_eq]
  decide

end Strategy

def Cluster.Node.placement (node : Node) : Placement := ⟨node.id, node.endpoint⟩

namespace Storage

/-- Where the nodes are that a storage spreads its entries over, if it does. -/
def placements (storage : Storage) : Option (List Placement) :=
  storage.coordinator.map fun coordinator => coordinator.registry.nodes.map Node.placement

variable {options : Options} {texts : List String} {place : Nat} {fleet : Fleet}

theorem connectAll_cons_iff {text : String} {connected : List Node × Fleet} :
    connectAll options place (text :: texts) fleet = .ok connected ↔
      ∃ peer, Peer.connect (Placement.ofText text).endpoint options = .ok peer ∧
        ∃ behind, connectAll options (place + 1) texts (fleet.define (toString place) peer) =
            .ok behind ∧
          connected = (.fresh (Placement.ofText text).id (Placement.ofText text).endpoint
            (toString place) :: behind.1, behind.2) := by
  rw [connectAll]
  cases Peer.connect (Placement.ofText text).endpoint options with
  | error error => simp [bind, Except.bind]
  | ok peer =>
      simp only [bind, Except.bind, Except.ok.injEq, exists_eq_left']
      cases connectAll options (place + 1) texts (fleet.define (toString place) peer) with
      | error error => simp
      | ok behind => simp [pure, Except.pure, eq_comm]

/-- Nodes are connected where their texts place them, in their order. -/
theorem connectAll_placements {connected : List Node × Fleet}
    (done : connectAll options place texts fleet = .ok connected) :
    connected.1.map Node.placement = texts.map Placement.ofText := by
  induction texts generalizing place fleet connected with
  | nil =>
      cases done
      rfl
  | cons text texts ih =>
      obtain ⟨peer, _, behind, rest, rfl⟩ := connectAll_cons_iff.mp done
      rw [List.map_cons, List.map_cons, ih rest]
      rfl

theorem connectAll_ok_iff (place : Nat) (fleet : Fleet) :
    (∃ connected, connectAll options place texts fleet = .ok connected) ↔
      ∀ text ∈ texts, ∃ peer,
        Peer.connect (Placement.ofText text).endpoint options = .ok peer := by
  induction texts generalizing place fleet with
  | nil => simp [connectAll]
  | cons text texts ih =>
      rw [List.forall_mem_cons]
      constructor
      · rintro ⟨connected, done⟩
        obtain ⟨peer, reached, behind, rest, _⟩ := connectAll_cons_iff.mp done
        exact ⟨⟨peer, reached⟩, (ih _ _).mp ⟨behind, rest⟩⟩
      · rintro ⟨⟨peer, reached⟩, others⟩
        obtain ⟨behind, rest⟩ := (ih (place + 1) (fleet.define (toString place) peer)).mpr others
        exact ⟨_, connectAll_cons_iff.mpr ⟨peer, reached, behind, rest, rfl⟩⟩

variable {config : Config}

theorem ofConfig_memory (named : Strategy.ofName config.cache.strategy = .memory) :
    ofConfig config = .ok (.memory .empty) := by
  simp [ofConfig, named]

theorem ofConfig_distributed (named : Strategy.ofName config.cache.strategy = .distributed)
    (listed : config.cache.distribution ≠ []) : ofConfig config =
      (connectAll config.cluster.options 0 config.cache.distribution .empty).map fun connected =>
        .distributed ⟨.new connected.1 config.cluster.options, connected.2, []⟩ := by
  obtain ⟨text, texts, shape⟩ := List.exists_cons_of_ne_nil listed
  simp only [ofConfig, named, shape]
  cases connectAll config.cluster.options 0 (text :: texts) .empty <;> rfl

/-- A storage over nodes is built where each of them can be connected, and then over these. -/
theorem ofConfig_nodes (named : Strategy.ofName config.cache.strategy = .distributed)
    (listed : config.cache.distribution ≠ []) :
    ((∃ storage, ofConfig config = .ok storage) ↔ ∀ text ∈ config.cache.distribution, ∃ peer,
      Peer.connect (Placement.ofText text).endpoint config.cluster.options = .ok peer) ∧
    ∀ storage, ofConfig config = .ok storage →
      storage.placements = some (config.cache.distribution.map Placement.ofText) := by
  rw [ofConfig_distributed named listed, ← connectAll_ok_iff 0 .empty]
  cases connected : connectAll config.cluster.options 0 config.cache.distribution .empty with
  | error error => simp [Except.map]
  | ok pair =>
      refine ⟨by simp [Except.map], ?_⟩
      rintro storage built
      cases built
      exact congrArg some (connectAll_placements connected)

end Storage

namespace Command.Arguments

variable {arguments : Arguments} {config : Config}

theorem override_distribution (given : arguments.peers ≠ []) :
    (arguments.override config).cache.distribution = arguments.peers := by
  simp [override, given]

theorem override_strategy (given : arguments.peers ≠ []) :
    (arguments.override config).cache.strategy =
      if config.cache.strategy = "memory" then "distributed" else config.cache.strategy := by
  simp [override, given]

/-- Peers are heeded under one spelling of the memory strategy: then the cache is spread over them,
once each can be connected. Under any other spelling the cache is a memory of its own. -/
theorem peers_heeded_iff (given : arguments.peers ≠ [])
    (memory : Strategy.ofName config.cache.strategy = .memory) :
    let overridden := arguments.override config
    overridden.cache.distribution = arguments.peers ∧
      (Strategy.ofName overridden.cache.strategy = .distributed ↔
        config.cache.strategy = "memory") ∧
      (config.cache.strategy = "memory" →
        ((∃ storage, Storage.ofConfig overridden = .ok storage) ↔ ∀ text ∈ arguments.peers, ∃ peer,
          Peer.connect (Placement.ofText text).endpoint config.cluster.options = .ok peer) ∧
        ∀ storage, Storage.ofConfig overridden = .ok storage →
          storage.placements = some (arguments.peers.map Placement.ofText)) ∧
      (config.cache.strategy ≠ "memory" →
        Storage.ofConfig overridden = .ok (.memory .empty)) := by
  intro overridden
  have listed : overridden.cache.distribution = arguments.peers := override_distribution given
  have strategy : overridden.cache.strategy =
      if config.cache.strategy = "memory" then "distributed" else config.cache.strategy :=
    override_strategy given
  have heeded (plain : config.cache.strategy = "memory") :
      Strategy.ofName overridden.cache.strategy = .distributed := by
    rw [strategy, if_pos plain, Strategy.ofName_distributed]
  have passed (other : config.cache.strategy ≠ "memory") :
      Strategy.ofName overridden.cache.strategy = .memory := by
    rw [strategy, if_neg other, memory]
  refine ⟨listed, ⟨?_, heeded⟩, ?_, fun other => Storage.ofConfig_memory (passed other)⟩
  · intro distributed
    by_contra other
    rw [passed other] at distributed
    cases distributed
  · intro plain
    have nodes := Storage.ofConfig_nodes (heeded plain) (listed ▸ given)
    rw [listed] at nodes
    exact nodes

def twoPeers : Arguments := ⟨none, none, none, ["a=memory://a", "memory://b"]⟩

theorem peers_heeded_iff_standard :
    twoPeers.peers ≠ [] ∧ Strategy.ofName Config.standard.cache.strategy = .memory ∧
      (twoPeers.override .standard).cache.distribution = ["a=memory://a", "memory://b"] ∧
      Strategy.ofName (twoPeers.override .standard).cache.strategy = .distributed ∧
      ∃ storage, Storage.ofConfig (twoPeers.override .standard) = .ok storage ∧
        storage.placements = some [⟨⟨"a"⟩, "memory://a"⟩, ⟨⟨"memory://b"⟩, "memory://b"⟩] := by
  have given : twoPeers.peers ≠ [] := by decide
  have memory : Strategy.ofName Config.standard.cache.strategy = .memory := by
    rw [Strategy.ofName_eq]
    decide
  obtain ⟨listed, distributed, plain, -⟩ := peers_heeded_iff given memory
  obtain ⟨built, placed⟩ := plain rfl
  have inProcess : ∀ text ∈ twoPeers.peers,
      (Placement.ofText text).endpoint.startsWith "memory://" = true := by decide +kernel
  have reached : ∀ text ∈ twoPeers.peers, ∃ peer, Peer.connect (Placement.ofText text).endpoint
      Config.standard.cluster.options = .ok peer :=
    fun text member => ⟨_, if_pos (inProcess text member)⟩
  obtain ⟨storage, done⟩ := built.mpr reached
  exact ⟨given, memory, listed, distributed.mpr rfl, storage, done, placed storage done⟩

def capitalMemory : Config :=
  { Config.standard with cache := { CacheSection.standard with strategy := "Memory" } }

/-- With a capital letter the strategy is still that of the memory, and the peers are lost on it. -/
theorem capital_ignores_peers :
    capitalMemory.validate = .ok () ∧ twoPeers.peers ≠ [] ∧
      Strategy.ofName capitalMemory.cache.strategy = .memory ∧
      Strategy.ofName (twoPeers.override capitalMemory).cache.strategy ≠ .distributed ∧
      Storage.ofConfig (twoPeers.override capitalMemory) = .ok (.memory .empty) := by
  have memory : Strategy.ofName "Memory" = .memory := by
    rw [Strategy.ofName_eq]
    decide
  have given : twoPeers.peers ≠ [] := by decide
  have kept : (twoPeers.override capitalMemory).cache.strategy = "Memory" :=
    override_strategy given
  refine ⟨rfl, given, memory, ?_, Storage.ofConfig_memory (by rw [kept, memory])⟩
  rw [kept, memory]
  decide

end Command.Arguments

end RingCache
