import RingCache.Http.Message
import RingCache.NodeId
import RingCache.Table

namespace RingCache.Http.NodeService

def entryPath : String := "/internal/entry"

def healthPath : String := "/health"

def parameterName : String := "key"

def entryMethods : List String := ["GET", "HEAD", "PUT", "DELETE"]

def healthSchema : Json.Schema :=
  .record "HealthResponse" [("node_id", .string, none), ("status", .string, none),
    ("entries", .usize, none)]

def health (id : NodeId) (table : Table Bytes) : Response :=
  .ofJson 200 (.object [("node_id", .string id.name), ("status", .string "ok"),
    ("entries", .ofNat table.size)])

def getEntry (key : String) (table : Table Bytes) : Response :=
  match table.get? key with
  | some value => .ofBytes 200 "application/octet-stream" value
  | none => .plain 404

def entry (raw : String) (request : Request) (table : Table Bytes) : Response × Table Bytes :=
  if !entryMethods.contains request.method then
    (.methodNotAllowed (",".intercalate entryMethods), table)
  else match readParameter parameterName raw with
    | .error refusal => (if request.method = "HEAD" then refusal.headOnly else refusal, table)
    | .ok key =>
        if request.method = "GET" then (getEntry key table, table)
        else if request.method = "HEAD" then ((getEntry key table).headOnly, table)
        else if request.method = "PUT" then
          if request.body.length > bodyLimit then (bodyTooLong, table)
          else (.plain 204, table.insert key request.body)
        else (.plain 204, if key.isEmpty then .empty else table.erase key)

def handle (id : NodeId) (request : Request) (table : Table Bytes) : Response × Table Bytes :=
  let path := pathOf request.target
  if path = entryPath.toList then
    if request.method = "DELETE" then (.plain 204, .empty)
    else (.methodNotAllowed "DELETE", table)
  else if path = healthPath.toList then
    if request.method = "GET" then (health id table, table)
    else if request.method = "HEAD" then ((health id table).headOnly, table)
    else (.methodNotAllowed "GET,HEAD", table)
  else match parameter? entryPath path with
    | some raw => entry raw request table
    | none => (.plain 404, table)

end RingCache.Http.NodeService
