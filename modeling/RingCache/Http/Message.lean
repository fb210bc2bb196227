import RingCache.Bytes
import RingCache.Json.Schema
import RingCache.Net.Percent
import RingCache.Text.Utf8

/-!
Requests and responses, and the matching of request targets. Routes have fixed paths, the last
segment of which may be a parameter: one segment that is not empty, with its escapes undone once.
-/

namespace RingCache.Http

structure Request where
  method : String
  target : String
  contentType : Option Bytes
  body : Bytes
  deriving DecidableEq, Repr

structure Response where
  status : Nat
  contentType : Option String
  allow : Option String
  body : Bytes
  deriving DecidableEq, Repr

namespace Response

def plain (status : Nat) : Response := ⟨status, none, none, []⟩

def ofBytes (status : Nat) (contentType : String) (body : Bytes) : Response :=
  ⟨status, some contentType, none, body⟩

def jsonType : String := "application/json"

def ofJson (status : Nat) (document : Json) : Response :=
  ofBytes status jsonType (Bytes.ofString document.text)

def errorSchema : Json.Schema := .record "ErrorResponse" [("error", .string, none)]

def ofError (status : Nat) (message : String) : Response :=
  ofJson status (.object [("error", .string message)])

def refusal (status : Nat) (message : String) : Response :=
  ofBytes status "text/plain; charset=utf-8" (Bytes.ofString message)

def methodNotAllowed (allowed : String) : Response := { plain 405 with allow := some allowed }

def headOnly (response : Response) : Response := { response with body := [] }

def isSuccess (response : Response) : Bool := 200 ≤ response.status && response.status < 300

end Response

def bodyLimit : Nat := 2097152

def bodyTooLong : Response :=
  .refusal 413 "Failed to buffer the request body: length limit exceeded"

def pathOf (target : String) : List Char :=
  target.toList.takeWhile fun c => c ≠ '?' && c ≠ '#'

def parameter? (front : String) (path : List Char) : Option String :=
  let base := front.toList ++ ['/']
  if base.isPrefixOf path then
    let segment := path.drop base.length
    if segment.isEmpty || segment.contains '/' then none else some (String.ofList segment)
  else none

def readParameter (name raw : String) : Except Response String :=
  match Utf8.decode (Net.percentDecode (Bytes.ofString raw)) with
  | .ok text => .ok text
  | .error _ => .error (.refusal 400 s!"Invalid URL: Invalid UTF-8 in `{name}`")

def isQueryChar (c : Char) : Bool :=
  let n := c.toNat
  n = 0x21 || (0x24 ≤ n && n ≤ 0x3B) || n = 0x3D || 0x3F ≤ n

def isPathChar (c : Char) : Bool :=
  let n := c.toNat
  n = 0x21 || (0x24 ≤ n && n ≤ 0x3B) || n = 0x3D || (0x40 ≤ n && n ≤ 0x5F) ||
    (0x61 ≤ n && n ≤ 0x7A) || n = 0x7C || n = 0x7E || 0x7F ≤ n || c = '"' || c = '\x7b' ||
    c = '\x7d'

def isTarget (target : String) : Bool :=
  let chars := target.toList.takeWhile (· ≠ '#')
  let path := chars.takeWhile (· ≠ '?')
  let query := (chars.drop path.length).drop 1
  path.head? = some '/' && path.all isPathChar && query.all isQueryChar

end RingCache.Http
