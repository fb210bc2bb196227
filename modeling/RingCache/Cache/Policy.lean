import RingCache.Cache.Value
import RingCache.Config.Basic
import RingCache.Proofs.Compression

/-!
How a cache makes entries: their lifetime, the greatest size of a value, and from which size on they
are compressed. Any codec will do that gives back what it was given; the one of a configuration is
GZIP.
-/

namespace RingCache

structure Codec where
  compress : Bytes → Bytes
  decompress : Bytes → Except Gzip.Fault Bytes
  lossless : ∀ octets, decompress (compress octets) = .ok octets

def Gzip.codec : Codec := ⟨compress, decompress, decompress_compress⟩

structure Policy where
  lifetime : Time.Span
  /-- The greatest length of an encoded value; zero for no limit. -/
  maxSize : Nat
  compresses : Bool
  threshold : Nat
  codec : Codec

namespace Policy

def standardLifetime : Time.Span := .ofSeconds 86400

def ofSection (config : CacheSection) : Policy where
  lifetime :=
    if config.ttlSeconds = 0 then standardLifetime else .ofSeconds config.ttlSeconds
  maxSize := config.maxSize
  compresses := config.compression
  threshold := config.compressionThreshold
  codec := Gzip.codec

def metadata (policy : Policy) (now : Time.Instant) (lifetime : Time.Span)
    (contentType : ContentType) (size : Nat) : Metadata where
  created := now
  expires := now.laterOrLatest lifetime
  size := .ofNat size
  compressed := policy.compresses && policy.threshold < size
  contentType := contentType

def entryOf (policy : Policy) (now : Time.Instant) (lifetime : Time.Span)
    (contentType : ContentType) (encoded : Bytes) : Entry :=
  let metadata := policy.metadata now lifetime contentType encoded.length
  ⟨if metadata.compressed then policy.codec.compress encoded else encoded, metadata⟩

def checkSize (policy : Policy) (size : Nat) : Except CacheError Unit :=
  if 0 < policy.maxSize ∧ policy.maxSize < size then .error (.valueTooLarge size policy.maxSize)
  else .ok ()

end Policy

def Entry.content (codec : Codec) (entry : Entry) : Except CacheError Bytes :=
  if entry.metadata.compressed then
    match codec.decompress entry.payload with
    | .ok octets => .ok octets
    | .error fault => .error (.codec (.decompression fault))
  else .ok entry.payload

def CacheValue.ofEntry (codec : Codec) (entry : Entry) : Except CacheError CacheValue := do
  let octets ← entry.content codec
  CacheValue.decode entry.metadata.contentType octets

end RingCache
