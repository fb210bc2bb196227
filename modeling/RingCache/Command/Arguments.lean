import RingCache.Config.Basic

/-!
The command line of a cache node. Four flags take the token behind them as their value, whatever it
looks like; any other token is passed over. Asking for help, or a flag without its value at the very
end, shows the usage.
-/

namespace RingCache.Command

structure Arguments where
  bind : Option Net.SocketAddress
  config : Option String
  nodeId : Option String
  peers : List String
  deriving DecidableEq, Repr

inductive Flag where
  | bind
  | config
  | nodeId
  | peer
  deriving DecidableEq, Repr

inductive Stop where
  | usage
  | badAddress
  deriving DecidableEq, Repr

namespace Flag

def text : Flag → String
  | .bind => "--bind"
  | .config => "--config"
  | .nodeId => "--node-id"
  | .peer => "--peer"

def all : List Flag := [.bind, .config, .nodeId, .peer]

def of? (token : String) : Option Flag := all.find? (·.text == token)

end Flag

def isHelp (token : String) : Bool := token = "--help" || token = "-h"

namespace Arguments

def empty : Arguments := ⟨none, none, none, []⟩

def give (arguments : Arguments) (flag : Flag) (value : String) : Except Stop Arguments :=
  match flag with
  | .bind => match Net.SocketAddress.read value with
    | some address => .ok { arguments with bind := some address }
    | none => .error .badAddress
  | .config => .ok { arguments with config := some value }
  | .nodeId => .ok { arguments with nodeId := some value }
  | .peer => .ok { arguments with peers := arguments.peers ++ [value] }

def readFrom (arguments : Arguments) : List String → Except Stop Arguments
  | [] => .ok arguments
  | [last] =>
      if isHelp last || (Flag.of? last).isSome then .error .usage else .ok arguments
  | token :: value :: rest =>
      if isHelp token then .error .usage
      else match Flag.of? token with
        | none => readFrom arguments (value :: rest)
        | some flag => match give arguments flag value with
          | .error stop => .error stop
          | .ok arguments => readFrom arguments rest

def read (tokens : List String) : Except Stop Arguments := readFrom empty tokens

/-- The configuration with what the arguments say. Peers take the place of the endpoints, and turn
the memory strategy into the distributed one. -/
def override (arguments : Arguments) (config : Config) : Config :=
  let node : NodeSection :=
    ⟨arguments.bind.getD config.node.bind, arguments.nodeId.or config.node.id⟩
  let cache := if arguments.peers.isEmpty then config.cache else
    { config.cache with
      distribution := arguments.peers
      strategy :=
        if config.cache.strategy = "memory" then "distributed" else config.cache.strategy }
  { config with node, cache }

end Arguments

def usageLine : String :=
  "Usage: cache-node --bind <addr:port> [--config <file>] [--node-id <id>] [--peer <endpoint>]..."

def usageText : String :=
  usageLine ++ "\nExample: cache-node --bind 127.0.0.1:7001\nExample: cache-node --bind " ++
    "127.0.0.1:7000 --peer a=127.0.0.1:7001 --peer b=127.0.0.1:7002"

def Stop.message : Stop → String
  | .usage => usageText
  | .badAddress => "Error: " ++ Net.SocketAddress.refusal

end RingCache.Command
