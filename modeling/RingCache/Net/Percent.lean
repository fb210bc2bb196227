import RingCache.Bytes

/-!
Percent encoding. A set of ASCII characters is escaped, together with every character above ASCII,
as the octets of their UTF-8 encoding; `%` and two hexadecimal digits stand for an octet.
-/

namespace RingCache.Net

def upperHexDigit (n : Nat) : Char :=
  if n < 10 then Char.ofNat (48 + n) else Char.ofNat (55 + n)

def escapeOctet (octet : UInt8) : List Char :=
  ['%', upperHexDigit (octet.toNat / 16), upperHexDigit (octet.toNat % 16)]

def percentEncodeChars (escaped : Char → Bool) (chars : List Char) : List Char :=
  chars.flatMap fun c =>
    if c.toNat < 128 && !escaped c then [c]
    else (Bytes.ofString (String.singleton c)).flatMap escapeOctet

def percentEncode (escaped : Char → Bool) (text : String) : String :=
  String.ofList (percentEncodeChars escaped text.toList)

def hexOctet (octet : UInt8) : Option Nat := Bytes.hexValue (Char.ofNat octet.toNat)

/-- Octets with their escapes undone, after those already `seen`, last first. An escape that lacks
its two digits stays as it is. -/
def percentDecodeFrom (seen : Bytes) : Bytes → Bytes
  | 37 :: high :: low :: rest =>
      match hexOctet high, hexOctet low with
      | some a, some b => percentDecodeFrom (UInt8.ofNat (16 * a + b) :: seen) rest
      | _, _ => percentDecodeFrom (37 :: seen) (high :: low :: rest)
  | octet :: rest => percentDecodeFrom (octet :: seen) rest
  | [] => seen.reverse
termination_by octets => octets.length

def percentDecode (octets : Bytes) : Bytes := percentDecodeFrom [] octets

-- Escape sets, each larger than the one before.
def isControl (c : Char) : Bool := c.toNat < 32 || c.toNat = 127

def fragmentEscapes (c : Char) : Bool :=
  isControl c || c = ' ' || c = '"' || c = '<' || c = '>' || c = '\x60'

def pathEscapes (c : Char) : Bool :=
  fragmentEscapes c || c = '#' || c = '?' || c = '\x7b' || c = '\x7d'

def segmentEscapes (c : Char) : Bool := pathEscapes c || c = '/' || c = '%'

def specialSegmentEscapes (c : Char) : Bool := segmentEscapes c || c = '\\'

def queryEscapes (c : Char) : Bool :=
  isControl c || c = ' ' || c = '"' || c = '#' || c = '<' || c = '>'

def specialQueryEscapes (c : Char) : Bool := queryEscapes c || c = '\''

end RingCache.Net
