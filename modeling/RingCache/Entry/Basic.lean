import RingCache.Bytes
import RingCache.Time.Instant

namespace RingCache

inductive ContentType where
  | text
  | binary
  | structured
  deriving DecidableEq, Repr, Inhabited

namespace ContentType

def name : ContentType → String
  | .text => "Text"
  | .binary => "Binary"
  | .structured => "Structured"

def all : List ContentType := [.text, .binary, .structured]

def ofName? (name : String) : Option ContentType := all.find? (·.name == name)

def mime : ContentType → String
  | .text => "text/plain"
  | .binary => "application/octet-stream"
  | .structured => "application/json"

end ContentType

structure Metadata where
  created : Time.Instant
  expires : Time.Instant
  /-- The length of the encoded value before compression. -/
  size : UInt64
  compressed : Bool
  contentType : ContentType
  deriving DecidableEq, Repr, Inhabited

structure Entry where
  payload : Bytes
  metadata : Metadata
  deriving DecidableEq, Repr, Inhabited

/-- An entry lives through its last instant. -/
def Metadata.expiredAt (metadata : Metadata) (now : Time.Instant) : Bool :=
  metadata.expires.before now

def Entry.expiredAt (entry : Entry) (now : Time.Instant) : Bool := entry.metadata.expiredAt now

end RingCache
