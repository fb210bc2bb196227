import RingCache.Cluster.Options
import RingCache.Error
import RingCache.Json.Schema
import RingCache.Net.Address

/-!
The configuration of a cache node. Every field has a default, so an empty document is a
configuration. A document is read by a schema, and a configuration is written as a document of the
same form.
-/

namespace RingCache

structure CacheSection where
  strategy : String
  ttlSeconds : Nat
  maxSize : Nat
  compression : Bool
  compressionThreshold : Nat
  distribution : List String
  deriving DecidableEq, Repr

structure ClusterSection where
  replicationFactor : Nat
  timeoutMillis : UInt64
  retryAttempts : Nat
  consistency : Cluster.Consistency
  virtualNodes : Nat
  healthIntervalSeconds : Nat
  healthTimeoutMillis : Nat
  deriving DecidableEq, Repr

structure NodeSection where
  bind : Net.SocketAddress
  id : Option String
  deriving DecidableEq, Repr

structure LoggingSection where
  level : String
  json : Bool
  deriving DecidableEq, Repr

structure Config where
  cache : CacheSection
  cluster : ClusterSection
  node : NodeSection
  logging : LoggingSection
  deriving DecidableEq, Repr

namespace CacheSection

def standard : CacheSection := ⟨"memory", 86400, 0, false, 1024, []⟩

def toJson (cache : CacheSection) : Json :=
  .object [("strategy", .string cache.strategy), ("ttl_secs", .ofNat cache.ttlSeconds),
    ("max_size", .ofNat cache.maxSize), ("compression", .bool cache.compression),
    ("compression_threshold", .ofNat cache.compressionThreshold),
    ("distribution", .array (cache.distribution.map Json.string))]

def schema : Json.Schema :=
  .record "CacheConfig" [("strategy", .string, some (.string standard.strategy)),
    ("ttl_secs", .u64, some (.ofNat standard.ttlSeconds)),
    ("max_size", .u64, some (.ofNat standard.maxSize)),
    ("compression", .bool, some (.bool standard.compression)),
    ("compression_threshold", .usize, some (.ofNat standard.compressionThreshold)),
    ("distribution", .list .string, some (.array []))]

def ofJson (document : Json) : CacheSection where
  strategy := (document.field "strategy").asString
  ttlSeconds := (document.field "ttl_secs").asNat
  maxSize := (document.field "max_size").asNat
  compression := (document.field "compression").asBool
  compressionThreshold := (document.field "compression_threshold").asNat
  distribution := (document.field "distribution").items.map Json.asString

end CacheSection

namespace ClusterSection

def standard : ClusterSection := ⟨2, 5000, 3, .all, 100, 30, 2000⟩

def toJson (cluster : ClusterSection) : Json :=
  .object [("replication_factor", .ofNat cluster.replicationFactor),
    ("timeout_ms", .ofNat cluster.timeoutMillis.toNat), ("retry_attempts", .ofNat cluster.retryAttempts),
    ("consistency_level", .string cluster.consistency.name),
    ("virtual_nodes", .ofNat cluster.virtualNodes),
    ("health_interval_secs", .ofNat cluster.healthIntervalSeconds),
    ("health_timeout_ms", .ofNat cluster.healthTimeoutMillis)]

def schema : Json.Schema :=
  .record "ClusterConfig" [
    ("replication_factor", .usize, some (.ofNat standard.replicationFactor)),
    ("timeout_ms", .u64, some (.ofNat standard.timeoutMillis.toNat)),
    ("retry_attempts", .usize, some (.ofNat standard.retryAttempts)),
    ("consistency_level", .choice "ConsistencyLevel" Cluster.Consistency.names,
      some (.string standard.consistency.name)),
    ("virtual_nodes", .usize, some (.ofNat standard.virtualNodes)),
    ("health_interval_secs", .u64, some (.ofNat standard.healthIntervalSeconds)),
    ("health_timeout_ms", .u64, some (.ofNat standard.healthTimeoutMillis))]

def ofJson (document : Json) : ClusterSection where
  replicationFactor := (document.field "replication_factor").asNat
  timeoutMillis := .ofNat (document.field "timeout_ms").asNat
  retryAttempts := (document.field "retry_attempts").asNat
  consistency := .ofName (document.field "consistency_level").asString
  virtualNodes := (document.field "virtual_nodes").asNat
  healthIntervalSeconds := (document.field "health_interval_secs").asNat
  healthTimeoutMillis := (document.field "health_timeout_ms").asNat

def options (cluster : ClusterSection) : Cluster.Options :=
  Cluster.Options.normalized {
    replicationFactor := cluster.replicationFactor
    timeout := .ofMillis cluster.timeoutMillis
    retryAttempts := cluster.retryAttempts
    consistency := cluster.consistency
    virtualNodes := cluster.virtualNodes
    healthInterval := .ofSeconds cluster.healthIntervalSeconds
    healthTimeout := .ofMillis cluster.healthTimeoutMillis }

end ClusterSection

namespace NodeSection

def standardBind : Net.SocketAddress := .v4 ⟨[127, 0, 0, 1]⟩ 7000

def standard : NodeSection := ⟨standardBind, none⟩

def toJson (node : NodeSection) : Json :=
  .object [("bind", .string node.bind.text),
    ("node_id", (node.id.map Json.string).getD .null)]

def readBind (text : String) : Except String String :=
  match Net.SocketAddress.read text with
  | some address => .ok address.text
  | none => .error Net.SocketAddress.refusal

def schema : Json.Schema :=
  .record "NodeConfig" [
    ("bind", .text "socket address" readBind, some (.string standardBind.text)),
    ("node_id", .optional .string, some .null)]

def ofJson (document : Json) : NodeSection where
  bind := (Net.SocketAddress.read (document.field "bind").asString).getD standardBind
  id := (document.field "node_id").asString?

end NodeSection

namespace LoggingSection

def standard : LoggingSection := ⟨"info", false⟩

def toJson (logging : LoggingSection) : Json :=
  .object [("level", .string logging.level), ("json", .bool logging.json)]

def schema : Json.Schema :=
  .record "LoggingConfig" [("level", .string, some (.string standard.level)),
    ("json", .bool, some (.bool standard.json))]

def ofJson (document : Json) : LoggingSection where
  level := (document.field "level").asString
  json := (document.field "json").asBool

end LoggingSection

namespace Config

def standard : Config := ⟨.standard, .standard, .standard, .standard⟩

def toJson (config : Config) : Json :=
  .object [("cache", config.cache.toJson), ("cluster", config.cluster.toJson),
    ("node", config.node.toJson), ("logging", config.logging.toJson)]

def schema : Json.Schema :=
  .record "AppConfig" [("cache", CacheSection.schema, some CacheSection.standard.toJson),
    ("cluster", ClusterSection.schema, some ClusterSection.standard.toJson),
    ("node", NodeSection.schema, some NodeSection.standard.toJson),
    ("logging", LoggingSection.schema, some LoggingSection.standard.toJson)]

def ofJson (document : Json) : Config where
  cache := .ofJson (document.field "cache")
  cluster := .ofJson (document.field "cluster")
  node := .ofJson (document.field "node")
  logging := .ofJson (document.field "logging")

def validate (config : Config) : Except CacheError Unit :=
  if config.cluster.replicationFactor = 0 then .error (.config (.limit .replicationFactor))
  else if config.cluster.timeoutMillis = 0 then .error (.config (.limit .timeout))
  else if config.cluster.virtualNodes = 0 then .error (.config (.limit .virtualNodes))
  else .ok ()

end Config

end RingCache
