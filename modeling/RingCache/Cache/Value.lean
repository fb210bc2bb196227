import RingCache.Entry.Basic
import RingCache.Error
import RingCache.Json.Schema

/-!
Values as a user of the cache sees them, and their encoding. A text is its UTF-8 octets, a binary
value its own octets, a structured value its compact JSON text.
-/

namespace RingCache

inductive CacheValue where
  | text (content : String)
  | binary (octets : Bytes)
  | structured (document : Json)
  deriving Repr

namespace Json

def keyText : Json → Except Fault String
  | .string name => .ok name
  | .int value => .ok (toString value)
  | .bool value => .ok (toString value)
  | _ => .error ⟨.keyNotString, none⟩

def ofKeyed (members : List (Json × Json)) : Except Fault Json := do
  let named ← members.mapM fun (key, value) => (keyText key).map fun name => (name, value)
  return ofMembers named

end Json

namespace CacheValue

def ofKeyed (members : List (Json × Json)) : Except CacheError CacheValue :=
  match Json.ofKeyed members with
  | .ok document => .ok (.structured document)
  | .error fault => .error (.codec (.json fault))

def contentType : CacheValue → ContentType
  | .text _ => .text
  | .binary _ => .binary
  | .structured _ => .structured

def encode : CacheValue → Bytes
  | .text content => Bytes.ofString content
  | .binary octets => octets
  | .structured document => Bytes.ofString document.text

def decode (contentType : ContentType) (octets : Bytes) : Except CacheError CacheValue :=
  match contentType with
  | .text => match Utf8.decode octets with
    | .ok content => .ok (.text content)
    | .error fault => .error (.codec (.text fault))
  | .binary => .ok (.binary octets)
  | .structured => match Json.parse octets with
    | .ok document => .ok (.structured document)
    | .error fault => .error (.codec (.json fault))

def readAs (schema : Json.Schema) (value : CacheValue) : Except CacheError Json :=
  let result := match value with
    | .structured document => schema.ofJson document
    | .text content => schema.parse (Bytes.ofString content)
    | .binary octets => schema.parse octets
  match result with
  | .ok document => .ok document
  | .error fault => .error (.codec (.json fault))

def asText : CacheValue → Option String
  | .text content => some content
  | _ => none

end CacheValue

end RingCache
