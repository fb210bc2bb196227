import RingCache.Cache.Strategy
import RingCache.Command.Arguments
import RingCache.Command.LogFilter
import RingCache.Config.Load

/-!
The start of a cache node: the command line, the configuration, the log filter and the cache, in
this order. Whatever fails ends the start with a message; what was logged before stays logged.
-/

namespace RingCache.Command

structure Surroundings where
  sources : Config.Sources
  freshId : NodeId
  now : Time.Instant

structure Service where
  id : NodeId
  bind : Net.SocketAddress
  cache : Cache Storage

structure Output where
  complaints : List String
  logs : List String
  json : Bool
  deriving DecidableEq, Repr

structure Startup where
  output : Output
  result : Except String Service

def logTarget : String := "cache_node"

def filterVariable : String := "RUST_LOG"

def startingLog (id : NodeId) (bind : Net.SocketAddress) : String :=
  s!"Starting cache node {id} on {bind.text}"

def gatewayLog (strategy : String) (endpoints : Nat) : String :=
  s!"Gateway strategy: {strategy} ({endpoints} endpoint(s))"

def listeningLog (bind : Net.SocketAddress) : String := s!"HTTP server listening on {bind.text}"

def helpLog : String := "Press Ctrl+C to shutdown"

def shutdownLog : String := "Shutdown requested"

def errorText (error : CacheError) : String := s!"Error: {error.message}"

def Startup.failed (message : String) : Startup := ⟨⟨[], [], false⟩, .error message⟩

def prepare (surroundings : Surroundings) (config : Config) : Startup :=
  let given := (surroundings.sources.environment.find? (·.1 == filterVariable)).map (·.2)
  let (filter, complaints) := LogFilter.choose given config.logging.level
  let logged (messages : List String) : Output :=
    ⟨complaints, if filter.lets logTarget .info then messages else [], config.logging.json⟩
  let id := (config.node.id.map NodeId.mk).getD surroundings.freshId
  let bind := config.node.bind
  match Cache.ofConfig config surroundings.now with
  | .error error => ⟨logged [startingLog id bind], .error (errorText error)⟩
  | .ok cache =>
      ⟨logged [startingLog id bind,
        gatewayLog cache.storage.name config.cache.distribution.length,
        listeningLog bind, helpLog], .ok ⟨id, bind, cache⟩⟩

def start (surroundings : Surroundings) (tokens : List String) : Startup :=
  match Arguments.read tokens with
  | .error stop => .failed stop.message
  | .ok arguments =>
      match Config.load surroundings.sources Config.standardMark arguments.config with
      | .error error => .failed (errorText error)
      | .ok config => prepare surroundings (arguments.override config)

/-- What a node writes that serves until it is told to stop: its exit code, the error stream and the
logged messages. -/
def Startup.report (startup : Startup) : Nat × List String × List String :=
  let output := startup.output
  match startup.result with
  | .error message => (1, output.complaints ++ [message], output.logs)
  | .ok _ =>
      (0, output.complaints, if output.logs.isEmpty then [] else output.logs ++ [shutdownLog])

end RingCache.Command
