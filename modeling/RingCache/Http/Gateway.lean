import RingCache.Cache.Basic
import RingCache.Http.Message

/-!
The cache over HTTP: its entries, one to a path, the clearing of all entries, and its counters. The
content type of a body says what kind of value it is.
-/

namespace RingCache.Http.Gateway

def cachePath : String := "/cache"

def metricsPath : String := "/metrics"

def parameterName : String := "key"

def entryMethods : List String := ["GET", "HEAD", "PUT", "DELETE"]

/-- A header that is readable as text: visible ASCII characters, blanks and tabs. -/
def headerText (octets : Bytes) : Option String :=
  if octets.all fun octet => (0x20 ≤ octet && octet ≤ 0x7E) || octet = 9 then
    some (String.ofList (octets.map fun octet => Char.ofNat octet.toNat))
  else none

def announced (header : Option Bytes) : ContentType :=
  match header.bind headerText with
  | none => .binary
  | some text =>
      if text.startsWith "text/" then .text
      else if text.startsWith "application/json" then .structured
      else .binary

def requestValue (header : Option Bytes) (body : Bytes) : Except CacheError CacheValue :=
  CacheValue.decode (announced header) body

def errorStatus (error : CacheError) : Nat :=
  match error with
  | .valueTooLarge _ _ => 413
  | .timeout _ => 504
  | _ =>
      if error.isValidation then 400
      else if error.isRouting then 503
      else 502

def failed (error : CacheError) : Response := .ofError (errorStatus error) error.message

def done : Except CacheError Unit → Response
  | .ok () => .plain 204
  | .error error => failed error

variable {σ : Type} (provider : Provider σ) (now : Time.Instant)

def getEntry (key : String) (cache : Cache σ) : Response × Cache σ :=
  let (result, cache) := cache.get provider now key
  match result with
  | .ok (some value) => (.ofBytes 200 value.contentType.mime value.encode, cache)
  | .ok none => (.plain 404, cache)
  | .error error => (failed error, cache)

def putEntry (key : String) (request : Request) (cache : Cache σ) : Response × Cache σ :=
  if request.body.length > bodyLimit then (bodyTooLong, cache)
  else match requestValue request.contentType request.body with
    | .error error => (.ofError 400 error.message, cache)
    | .ok value =>
        let (result, cache) := cache.set provider now key value
        (done result, cache)

def deleteEntry (key : String) (cache : Cache σ) : Response × Cache σ :=
  let (result, cache) := cache.delete provider now key
  (done result, cache)

def entry (raw : String) (request : Request) (cache : Cache σ) : Response × Cache σ :=
  if !entryMethods.contains request.method then
    (.methodNotAllowed (",".intercalate entryMethods), cache)
  else match readParameter parameterName raw with
    | .error refusal => (if request.method = "HEAD" then refusal.headOnly else refusal, cache)
    | .ok key =>
        if request.method = "GET" then getEntry provider now key cache
        else if request.method = "HEAD" then
          let (response, cache) := getEntry provider now key cache
          (response.headOnly, cache)
        else if request.method = "PUT" then putEntry provider now key request cache
        else deleteEntry provider now key cache

def handle (request : Request) (cache : Cache σ) : Response × Cache σ :=
  let path := pathOf request.target
  if path = cachePath.toList then
    if request.method = "DELETE" then
      let (result, cache) := cache.clear provider now
      (done result, cache)
    else (.methodNotAllowed "DELETE", cache)
  else if path = metricsPath.toList then
    let response := Response.ofJson 200 cache.metrics.toJson
    if request.method = "GET" then (response, cache)
    else if request.method = "HEAD" then (response.headOnly, cache)
    else (.methodNotAllowed "GET,HEAD", cache)
  else match parameter? cachePath path with
    | some raw => entry provider now raw request cache
    | none => (.plain 404, cache)

end RingCache.Http.Gateway
