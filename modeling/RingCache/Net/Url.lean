import RingCache.Net.Percent
import RingCache.Net.Address
import RingCache.Net.Punycode

/-!
URLs of nodes. A URL with an authority has a host and a path, which is a list of escaped segments;
other URLs have a path without a root and cannot be extended. A few schemes are special: `\`
separates like `/`, a host is needed and has a canonical form, and the scheme's own port is left
out.
-/

namespace RingCache.Net

inductive UrlFault where
  | noScheme
  | emptyHost
  | domain
  | hostCharacter
  | ipv4
  | ipv6
  | port
  deriving DecidableEq, Repr

def UrlFault.message : UrlFault → String
  | .noScheme => "relative URL without a base"
  | .emptyHost => "empty host"
  | .domain => "invalid international domain name"
  | .hostCharacter => "invalid domain character"
  | .ipv4 => "invalid IPv4 address"
  | .ipv6 => "invalid IPv6 address"
  | .port => "invalid port number"

inductive UrlPath where
  | segments (list : List String)
  | rootless (text : String)
  deriving DecidableEq, Repr

structure Url where
  scheme : String
  host : Option String
  port : Option Nat
  path : UrlPath
  query : Option String
  fragment : Option String
  deriving DecidableEq, Repr

namespace Url

def specialSchemes : List (String × Option Nat) :=
  [("http", some 80), ("https", some 443), ("ws", some 80), ("wss", some 443), ("ftp", some 21),
    ("file", none)]

def isSpecial (scheme : String) : Bool := specialSchemes.any (·.1 == scheme)

def defaultPort (scheme : String) : Option Nat :=
  (specialSchemes.find? (·.1 == scheme)).bind (·.2)

def pathText : UrlPath → String
  | .segments list => String.join (list.map ("/" ++ ·))
  | .rootless text => text

def text (url : Url) : String :=
  let authority := match url.host with
    | none => ""
    | some host => "//" ++ host ++ (match url.port with
        | none => ""
        | some port => s!":{port}")
  let query := match url.query with
    | none => ""
    | some query => "?" ++ query
  let fragment := match url.fragment with
    | none => ""
    | some fragment => "#" ++ fragment
  url.scheme ++ ":" ++ authority ++ pathText url.path ++ query ++ fragment

def isSingleDot (segment : String) : Bool := segment = "." || segment.toLower = "%2e"

def isDoubleDot (segment : String) : Bool :=
  ["..", ".%2e", "%2e.", "%2e%2e"].contains segment.toLower

/-- Appends a segment behind the path: a double dot takes a segment away instead, and a dot stands
for an empty segment when it is the last. -/
def pathStep (path : List String) (segment : String) (last : Bool) : List String :=
  if isDoubleDot segment then
    let shorter := path.dropLast
    if last then shorter ++ [""] else shorter
  else if isSingleDot segment then (if last then path ++ [""] else path)
  else path ++ [segment]

def resolve (path : List String) : List String → List String
  | [] => path
  | [segment] => pathStep path segment true
  | segment :: rest => resolve (pathStep path segment false) rest

def isDropped (c : Char) : Bool := c = '\t' || c = '\n' || c = '\r'

/-- A segment as it is escaped when it is pushed onto a path: tabs and line ends vanish. -/
def escapeSegment (special : Bool) (segment : String) : String :=
  percentEncode (if special then specialSegmentEscapes else segmentEscapes)
    (String.ofList (segment.toList.filter (!isDropped ·)))

def popEmpty (path : List String) : List String :=
  if path.length ≥ 2 ∧ path.getLast? = some "" then path.dropLast else path

/-- Puts one segment behind a path. The segments `.` and `..` are passed over. -/
def pushSegment (special : Bool) (path : List String) (segment : String) : List String :=
  if segment = "." ∨ segment = ".." then path
  else
    -- The path `/` has one empty segment, which the first real one replaces.
    let base := if path = [""] then [] else path
    pathStep base (escapeSegment special segment) true

def extend (url : Url) (segments : List String) : Url :=
  match url.path with
  | .rootless _ => url
  | .segments path =>
      let special := isSpecial url.scheme
      { url with path := .segments (segments.foldl (pushSegment special) (popEmpty path)) }

def canBeBase (url : Url) : Bool :=
  match url.path with
  | .segments _ => true
  | .rootless _ => false

def isSchemeStart (c : Char) : Bool := c.isAlpha

def isSchemeChar (c : Char) : Bool := c.isAlphanum || c = '+' || c = '-' || c = '.'

def hasScheme : List Char → Bool
  | ':' :: '/' :: '/' :: _ => true
  | _ :: rest => hasScheme rest
  | [] => false

def takeScheme (chars : List Char) : Except UrlFault (String × List Char) :=
  match chars with
  | first :: _ =>
      let name := chars.takeWhile isSchemeChar
      match chars.drop name.length with
      | ':' :: rest =>
          if isSchemeStart first then .ok (String.ofList (name.map Char.toLower), rest)
          else .error .noScheme
      | _ => .error .noScheme
  | [] => .error .noScheme

def isSlash (special : Bool) (c : Char) : Bool := c = '/' || (special && c = '\\')

def endsAuthority (special : Bool) (c : Char) : Bool := isSlash special c || c = '?' || c = '#'

def afterUserInfo (authority : List Char) : List Char :=
  (authority.reverse.takeWhile (· ≠ '@')).reverse

def splitHost (inBrackets : Bool) : List Char → List Char × List Char
  | [] => ([], [])
  | c :: rest =>
      if c = ':' && !inBrackets then ([], c :: rest)
      else
        let inside := if c = '[' then true else if c = ']' then false else inBrackets
        let (host, after) := splitHost inside rest
        (c :: host, after)

def isForbiddenInHost (c : Char) : Bool :=
  c.toNat = 0 || [' ', '\t', '\n', '\r', '#', '/', ':', '<', '>', '?', '@', '[', '\\', ']', '^',
    '|'].contains c

def isForbiddenInDomain (c : Char) : Bool := isForbiddenInHost c || isControl c || c = '%'

def readIpv4Number (part : List Char) : Option Nat :=
  let read (base : Nat) (digits : List Char) : Option Nat := do
    let values ← digits.mapM Bytes.hexValue
    if values.all (· < base) then return ofDigits base values else none
  match part with
  | [] => none
  | '0' :: 'x' :: digits => read 16 digits
  | '0' :: 'X' :: digits => read 16 digits
  | '0' :: digits => read 8 digits
  | digits => read 10 digits

def splitOnChar (mark : Char) : List Char → List (List Char)
  | [] => [[]]
  | c :: rest => match splitOnChar mark rest with
    | [] => [[c]]
    | part :: parts => if c = mark then [] :: part :: parts else (c :: part) :: parts

def hostParts (host : List Char) : List (List Char) :=
  let parts := splitOnChar '.' host
  if parts.length > 1 ∧ parts.getLast? = some [] then parts.dropLast else parts

def endsInNumber (host : List Char) : Bool :=
  match (hostParts host).getLast? with
  | none => false
  | some part =>
      (!part.isEmpty && part.all Char.isDigit) ||
        (part.take 2 = ['0', 'x'] && (readIpv4Number part).isSome)

/-- The address of an IPv4 host of one to four numbers; the last fills what the others leave. -/
def readIpv4Host (host : List Char) : Option Ipv4 := do
  let parts := hostParts host
  if parts.length > 4 then none
  let numbers ← parts.mapM readIpv4Number
  let leading := numbers.dropLast
  let last ← numbers.getLast?
  if leading.any (· > 255) then none
  if last ≥ Nat.pow 256 (5 - numbers.length) then none
  let value := ofDigits 256 leading * Nat.pow 256 (5 - numbers.length) + last
  return ⟨[value / 16777216, value / 65536 % 256, value / 256 % 256, value % 256]⟩

def domainToAscii (domain : List Char) : List Char :=
  ['.'].intercalate <| (splitOnChar '.' domain).map fun label =>
    let label := label.map Char.toLower
    if label.all (·.toNat < 128) then label
    else ['x', 'n', '-', '-'] ++ Punycode.encode label

def readDomain (host : List Char) : Except UrlFault String :=
  match String.fromUTF8? ⟨(percentDecode (Bytes.ofString (String.ofList host))).toArray⟩ with
  | none => .error .domain
  | some decoded =>
      let domain := domainToAscii decoded.toList
      if domain.isEmpty then .error .emptyHost
      else if domain.any isForbiddenInDomain then .error .domain
      else if endsInNumber domain then
        match readIpv4Host domain with
        | none => .error .ipv4
        | some address => .ok (String.ofList address.chars)
      else .ok (String.ofList domain)

def readHost (special : Bool) (host : List Char) : Except UrlFault String :=
  match host with
  | '[' :: rest =>
      match Ipv6.read rest with
      | some (address, [']']) => .ok (String.ofList ('[' :: address.hexChars ++ [']']))
      | _ => .error .ipv6
  | [] => if special then .error .emptyHost else .ok ""
  | host =>
      if special then readDomain host
      else if host.any isForbiddenInHost then .error .hostCharacter
      else .ok (percentEncode isControl (String.ofList host))

def readUrlPort (scheme : String) (chars : List Char) : Except UrlFault (Option Nat) :=
  match chars with
  | ':' :: [] => .ok none
  | ':' :: digits =>
      if !digits.all Char.isDigit then .error .port
      else
        let value := ofDigits 10 (digits.map fun c => c.toNat - 48)
        if value > 65535 then .error .port
        else .ok (if defaultPort scheme = some value then none else some value)
  | _ => .ok none

def splitAtFirst (p : Char → Bool) (chars : List Char) : List Char × List Char :=
  (chars.takeWhile (!p ·), chars.dropWhile (!p ·))

def splitSegments (special : Bool) : List Char → List (List Char)
  | [] => [[]]
  | c :: rest => match splitSegments special rest with
    | [] => [[c]]
    | part :: parts => if isSlash special c then [] :: part :: parts else (c :: part) :: parts

def readPath (special : Bool) (chars : List Char) : List String :=
  match chars with
  | [] => if special then [""] else []
  | c :: rest =>
      let body := if isSlash special c then rest else c :: rest
      resolve [] ((splitSegments special body).map fun segment =>
        percentEncode pathEscapes (String.ofList segment))

def readSuffix (special : Bool) (chars : List Char) : Option String × Option String :=
  let (query, fragment) := splitAtFirst (· = '#') chars
  let queryText := match query with
    | '?' :: rest =>
        some (percentEncode (if special then specialQueryEscapes else queryEscapes)
          (String.ofList rest))
    | _ => none
  let fragmentText := match fragment with
    | '#' :: rest => some (percentEncode fragmentEscapes (String.ofList rest))
    | _ => none
  (queryText, fragmentText)

def isEdge (c : Char) : Bool := c.toNat ≤ 32

def clean (chars : List Char) : List Char :=
  ((((chars.dropWhile isEdge).reverse.dropWhile isEdge).reverse).filter (!isDropped ·))

def readAuthority (scheme : String) (chars : List Char) : Except UrlFault Url := do
  let special := isSpecial scheme
  let (authority, rest) := splitAtFirst (endsAuthority special) chars
  let (host, port) := splitHost false (afterUserInfo authority)
  -- Special schemes other than `file` need a host, and so does a port or a login.
  if host.isEmpty ∧ (special ∧ scheme ≠ "file" ∨ !port.isEmpty ∨ authority.contains '@') then
    .error .emptyHost
  else
    let host ← if host.isEmpty then .ok "" else readHost special host
    let port ← readUrlPort scheme port
    let (path, suffix) := splitAtFirst (fun c => c = '?' || c = '#') rest
    let (query, fragment) := readSuffix special suffix
    return ⟨scheme, some host, port, .segments (readPath special path), query, fragment⟩

def read (text : String) : Except UrlFault Url := do
  let (scheme, rest) ← takeScheme (clean text.toList)
  let special := isSpecial scheme
  if special ∧ scheme ≠ "file" then readAuthority scheme (rest.dropWhile (isSlash true))
  else match rest with
    | '/' :: '/' :: rest => readAuthority scheme rest
    | '/' :: _ =>
        let (path, suffix) := splitAtFirst (fun c => c = '?' || c = '#') rest
        let (query, fragment) := readSuffix special suffix
        return ⟨scheme, if special then some "" else none, none,
          .segments (readPath special path), query, fragment⟩
    | _ =>
        let (path, suffix) := splitAtFirst (fun c => c = '?' || c = '#') rest
        let (query, fragment) := readSuffix special suffix
        return ⟨scheme, none, none,
          .rootless (percentEncode isControl (String.ofList path)), query, fragment⟩

end Url

end RingCache.Net
