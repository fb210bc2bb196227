import RingCache.Entry.Envelope
import RingCache.Gzip
import RingCache.Json.Fault
import RingCache.Net.Url
import RingCache.NodeId
import RingCache.Settings.Reading

/-!
What a cache operation can fail with. A failed fan-out names every node that failed, with its own
reason.
-/

namespace RingCache

inductive CodecFault where
  | json (fault : Json.Fault)
  | text (fault : Utf8.Fault)
  | envelope (fault : Envelope.Fault)
  | decompression (fault : Gzip.Fault)
  | reported (message : String)
  deriving Repr

def CodecFault.message : CodecFault → String
  | .json fault => fault.message
  | .text fault => fault.message
  | .envelope fault => fault.message
  | .decompression fault => s!"decompression failed: {fault.message}"
  | .reported message => message

inductive LimitFault where
  | replicationFactor
  | timeout
  | virtualNodes
  deriving DecidableEq, Repr

def LimitFault.message : LimitFault → String
  | .replicationFactor => "cluster.replication_factor must be at least 1"
  | .timeout => "cluster.timeout_ms must be greater than 0"
  | .virtualNodes => "cluster.virtual_nodes must be greater than 0"

inductive ConfigFault where
  | fileMissing (path : String)
  | noFile (path : String)
  /-- The extension of the file names no known format. -/
  | fileFormat (path : String)
  | fileSyntax (name : String)
  /-- The document in the file is not a table. -/
  | fileShape (found : Settings.Found) (name : String)
  | setting (fault : Settings.Fault)
  | limit (fault : LimitFault)
  | noRemoteEndpoint
  | noDistributedEndpoints
  | endpoint (endpoint : String) (fault : Net.UrlFault)
  | endpointNotBase (endpoint : String)
  | featureMissing (endpoint : String)
  | reported (message : String)
  deriving Repr

def ConfigFault.message : ConfigFault → String
  | .fileMissing path => s!"config file not found: {path}"
  | .noFile path => s!"configuration file \"{path}\" not found"
  | .fileFormat path =>
      s!"configuration file \"{path}\" is not of a registered file format"
  | .fileSyntax name => s!"invalid document in {name}"
  | .fileShape found name =>
      s!"invalid type: {found.message}, expected a map in {name} in {name}"
  | .setting fault => fault.message
  | .limit fault => fault.message
  | .noRemoteEndpoint => "remote strategy needs one endpoint in cache.distribution"
  | .noDistributedEndpoints => "distributed strategy needs endpoints in cache.distribution"
  | .endpoint address fault => s!"invalid node endpoint {address}: {fault.message}"
  | .endpointNotBase address => s!"invalid node endpoint {address}: not a base URL"
  | .featureMissing address => s!"{address} requires the `redis` feature"
  | .reported message => message

structure NodeFailure where
  node : NodeId
  reason : String
  deriving DecidableEq, Repr

def NodeFailure.text (failure : NodeFailure) : String := s!"{failure.node}: {failure.reason}"

inductive CacheError where
  | emptyKey
  | keyTooLong (length limit : Nat)
  | valueTooLarge (size limit : Nat)
  | noHealthyNode
  | nodeUnavailable (node : NodeId)
  | timeout (after : Time.Span)
  | connection (endpoint message : String)
  | codec (fault : CodecFault)
  | backend (message : String)
  | replication (operation : String) (attempted : Nat) (failures : List NodeFailure)
  | config (fault : ConfigFault)
  deriving Repr

namespace CacheError

def kind : CacheError → String
  | .emptyKey => "EmptyKey"
  | .keyTooLong _ _ => "KeyTooLong"
  | .valueTooLarge _ _ => "ValueTooLarge"
  | .noHealthyNode => "NoHealthyNode"
  | .nodeUnavailable _ => "NodeUnavailable"
  | .timeout _ => "Timeout"
  | .connection _ _ => "Connection"
  | .codec _ => "Codec"
  | .backend _ => "Backend"
  | .replication _ _ _ => "Replication"
  | .config _ => "Config"

def message : CacheError → String
  | .emptyKey => "cache key cannot be empty"
  | .keyTooLong length limit => s!"cache key too long: {length} bytes (max {limit})"
  | .valueTooLarge size limit => s!"value exceeds max size: size {size} exceeds limit {limit}"
  | .noHealthyNode => "no healthy node available"
  | .nodeUnavailable node => s!"node unavailable: {node}"
  | .timeout after => s!"operation timed out after {after.text}"
  | .connection endpoint message => s!"connection to {endpoint} failed: {message}"
  | .codec fault => s!"codec error: {fault.message}"
  | .backend message => s!"backend error: {message}"
  | .replication operation attempted failures =>
      let list := "; ".intercalate (failures.map NodeFailure.text)
      s!"{operation} failed on {failures.length}/{attempted} nodes: {list}"
  | .config fault => s!"configuration error: {fault.message}"

def isValidation : CacheError → Bool
  | .emptyKey => true
  | .keyTooLong _ _ => true
  | .valueTooLarge _ _ => true
  | _ => false

def isRouting : CacheError → Bool
  | .noHealthyNode => true
  | .nodeUnavailable _ => true
  | _ => false

def failedNodes : CacheError → List NodeId
  | .replication _ _ failures => failures.map NodeFailure.node
  | _ => []

end CacheError

def maxKeyLength : Nat := 256

def validateKey (key : String) : Except CacheError Unit :=
  if key.isEmpty then .error .emptyKey
  else if key.utf8ByteSize > maxKeyLength then
    .error (.keyTooLong key.utf8ByteSize maxKeyLength)
  else .ok ()

end RingCache
