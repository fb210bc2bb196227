import RingCache.Entry.Basic
import RingCache.Text.Utf8
import RingCache.Time.Rfc3339

/-!
The binary form in which nodes hold entries. Numbers have a fixed width and come least significant
octet first; the payload and the two dates, as RFC 3339 text, are led by their length in 64 bits.
Octets behind an envelope are passed over.
-/

namespace RingCache.Envelope

inductive Fault where
  | endOfInput
  | shortText
  | flag (octet : UInt8)
  | contentType (index : Nat)
  | text (fault : Utf8.Fault)
  | date (fault : Time.DateFault)
  deriving Repr

def Fault.message : Fault → String
  | .endOfInput => "io error: unexpected end of file"
  | .shortText => "io error: "
  | .flag octet => s!"invalid u8 while decoding bool, expected 0 or 1, found {octet.toNat}"
  | .contentType index =>
      s!"invalid value: integer `{index}`, expected variant index 0 <= i < 3"
  | .text fault => s!"string is not valid utf8: {fault.message}"
  | .date fault => fault.message

def lengthPrefixed (bytes : Bytes) : Bytes := Bytes.littleEndian 8 bytes.length ++ bytes

def encodeDate (instant : Time.Instant) : Bytes :=
  lengthPrefixed (Bytes.ofString (Time.Rfc3339.text instant))

def contentIndex : ContentType → Nat
  | .text => 0
  | .binary => 1
  | .structured => 2

def encode (entry : Entry) : Bytes :=
  lengthPrefixed entry.payload ++ encodeDate entry.metadata.created ++
    encodeDate entry.metadata.expires ++ Bytes.littleEndian 8 entry.metadata.size.toNat ++
    [if entry.metadata.compressed then 1 else 0] ++
    Bytes.littleEndian 4 (contentIndex entry.metadata.contentType)

def split? (count : Nat) (bytes : Bytes) : Option (Bytes × Bytes) :=
  let front := bytes.take count
  if front.length = count then some (front, bytes.drop count) else none

def number (width : Nat) (bytes : Bytes) : Except Fault (Nat × Bytes) :=
  match split? width bytes with
  | some (octets, rest) => .ok (Bytes.ofLittleEndian octets, rest)
  | none => .error .endOfInput

def payload (bytes : Bytes) : Except Fault (Bytes × Bytes) := do
  let (length, rest) ← number 8 bytes
  match split? length rest with
  | some result => return result
  | none => throw .endOfInput

def date (bytes : Bytes) : Except Fault (Time.Instant × Bytes) := do
  let (length, rest) ← number 8 bytes
  match split? length rest with
  | none => throw .shortText
  | some (octets, rest) =>
      match Utf8.decode octets with
      | .error fault => throw (.text fault)
      | .ok text => match Time.Rfc3339.read text with
        | .error fault => throw (.date fault)
        | .ok instant => return (instant, rest)

def flag (bytes : Bytes) : Except Fault (Bool × Bytes) :=
  match bytes with
  | [] => .error .endOfInput
  | octet :: rest =>
      if octet = 0 then .ok (false, rest)
      else if octet = 1 then .ok (true, rest)
      else .error (.flag octet)

def contentType (bytes : Bytes) : Except Fault (ContentType × Bytes) := do
  let (index, rest) ← number 4 bytes
  match index with
  | 0 => return (.text, rest)
  | 1 => return (.binary, rest)
  | 2 => return (.structured, rest)
  | _ => throw (.contentType index)

def decode (bytes : Bytes) : Except Fault Entry := do
  let (payload, rest) ← payload bytes
  let (created, rest) ← date rest
  let (expires, rest) ← date rest
  let (size, rest) ← number 8 rest
  let (compressed, rest) ← flag rest
  let (contentType, _) ← contentType rest
  return ⟨payload, ⟨created, expires, UInt64.ofNat size, compressed, contentType⟩⟩

end RingCache.Envelope
