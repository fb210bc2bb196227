import RingCache.Deflate.Stream

/-!
The GZIP format: a header, a DEFLATE stream, and a trailer with the checksum and the length of the
data. Only the first member of a file is read; what follows it is passed over.
-/

namespace RingCache.Gzip

inductive Fault where
  | endOfInput
  | header
  | fieldTooLong
  | stream (fault : Deflate.Fault)
  | checksum
  deriving DecidableEq, Repr

def Fault.message : Fault → String
  | .endOfInput => "unexpected end of file"
  | .header => "invalid gzip header"
  | .fieldTooLong => "gzip header field too long"
  | .stream .incomplete => "incomplete deflate stream"
  | .stream .corrupt => "corrupt deflate stream"
  | .checksum => "corrupt gzip stream does not have a matching checksum"

def polynomial : UInt32 := 0xEDB88320

def divide : (count : Nat) → UInt32 → UInt32
  | 0, rest => rest
  | count + 1, rest =>
      divide count (if rest &&& 1 = 1 then (rest >>> 1) ^^^ polynomial else rest >>> 1)

def checksumStep (rest : UInt32) (octet : UInt8) : UInt32 :=
  divide 8 (rest ^^^ octet.toUInt32)

def checksum (data : Bytes) : UInt32 := (data.foldl checksumStep 0xFFFFFFFF) ^^^ 0xFFFFFFFF

def header : Bytes := [0x1F, 0x8B, 8, 0, 0, 0, 0, 0, 0, 0xFF]

def trailer (data : Bytes) : Bytes :=
  Bytes.littleEndian 4 (checksum data).toNat ++ Bytes.littleEndian 4 data.length

def compress (data : Bytes) : Bytes := header ++ Deflate.compress data ++ trailer data

def hasFlag (flags : UInt8) (bit : Nat) : Bool := flags.toNat.testBit bit

def skip (count : Nat) (octets : Bytes) : Except Fault Bytes :=
  if (octets.take count).length < count then .error .endOfInput else .ok (octets.drop count)

def fieldLimit : Nat := 65535

def skipField : (left : Nat) → Bytes → Except Fault Bytes
  | _, [] => .error .endOfInput
  | _, 0 :: rest => .ok rest
  | 0, _ :: _ => .error .fieldTooLong
  | left + 1, _ :: rest => skipField left rest

def skipExtra (octets : Bytes) : Except Fault Bytes :=
  match octets with
  | a :: b :: rest => skip (Bytes.ofLittleEndian [a, b]) rest
  | _ => .error .endOfInput

/-- Compares the checksum of the header before `rest`, a suffix of `whole`. -/
def checkHeader (whole rest : Bytes) : Except Fault Bytes :=
  match rest with
  | a :: b :: after =>
      let read := whole.take (whole.length - rest.length)
      if Bytes.ofLittleEndian [a, b] = (checksum read).toNat % 65536 then .ok after
      else .error .checksum
  | _ => .error .endOfInput

def readHeader (octets : Bytes) : Except Fault Bytes :=
  match octets with
  | first :: second :: method :: flags :: _ :: _ :: _ :: _ :: _ :: _ :: rest =>
      -- The upper three flags are reserved.
      if first ≠ 0x1F ∨ second ≠ 0x8B ∨ method ≠ 8 ∨ flags ≥ 0x20 then .error .header
      else do
        let rest ← if hasFlag flags 2 then skipExtra rest else .ok rest
        let rest ← if hasFlag flags 3 then skipField fieldLimit rest else .ok rest
        let rest ← if hasFlag flags 4 then skipField fieldLimit rest else .ok rest
        if hasFlag flags 1 then checkHeader octets rest else .ok rest
  | _ => .error .endOfInput

def checkTrailer (data octets : Bytes) : Except Fault Unit :=
  match octets with
  | a :: b :: c :: d :: e :: f :: g :: h :: _ =>
      if Bytes.ofLittleEndian [a, b, c, d] = (checksum data).toNat ∧
          Bytes.ofLittleEndian [e, f, g, h] = data.length % Nat.pow 2 32 then .ok ()
      else .error .checksum
  | _ => .error .endOfInput

def decompress (octets : Bytes) : Except Fault Bytes := do
  let rest ← readHeader octets
  match Deflate.decompress rest with
  | .error fault => .error (.stream fault)
  | .ok (data, rest) =>
      let data := data.toList
      checkTrailer data rest
      return data

end RingCache.Gzip
