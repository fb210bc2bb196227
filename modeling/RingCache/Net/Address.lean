import RingCache.Bytes

namespace RingCache.Net

structure Ipv4 where
  octets : List Nat
  deriving DecidableEq, Repr

structure Ipv6 where
  groups : List Nat
  deriving DecidableEq, Repr

inductive SocketAddress where
  | v4 (address : Ipv4) (port : Nat)
  | v6 (address : Ipv6) (scope port : Nat)
  deriving DecidableEq, Repr

def decimal (n : Nat) : List Char := Nat.toDigits 10 n

def Ipv4.chars (address : Ipv4) : List Char :=
  ['.'].intercalate (address.octets.map decimal)

def hexGroup (n : Nat) : List Char := Nat.toDigits 16 n

def groupsText (groups : List Nat) : List Char := [':'].intercalate (groups.map hexGroup)

def longestZeros (groups : List Nat) : Nat × Nat :=
  let run (start : Nat) := ((groups.drop start).takeWhile (· = 0)).length
  (List.range groups.length).foldl
    (fun (best, size) start => if run start > size then (start, run start) else (best, size))
    (0, 0)

def Ipv6.hexChars (address : Ipv6) : List Char :=
  let (start, size) := longestZeros address.groups
  if size > 1 then
    groupsText (address.groups.take start) ++ [':', ':'] ++
      groupsText (address.groups.drop (start + size))
  else groupsText address.groups

/-- As groups, but an address that stands for an IPv4 address ends in that one. -/
def Ipv6.chars (address : Ipv6) : List Char :=
  match address.groups with
  | [0, 0, 0, 0, 0, 0xFFFF, a, b] =>
      [':', ':', 'f', 'f', 'f', 'f', ':'] ++
        (Ipv4.mk [a / 256, a % 256, b / 256, b % 256]).chars
  | _ => address.hexChars

def SocketAddress.text : SocketAddress → String
  | .v4 address port => String.ofList (address.chars ++ ':' :: decimal port)
  | .v6 address scope port =>
      let zone := if scope = 0 then [] else '%' :: decimal scope
      String.ofList ('[' :: address.chars ++ zone ++ [']', ':'] ++ decimal port)

def takeNumber (base most : Nat) (chars : List Char) : List Nat × List Char :=
  match most, chars with
  | most + 1, c :: rest => match Bytes.hexValue c with
    | some digit =>
        if digit < base then
          let (digits, rest) := takeNumber base most rest
          (digit :: digits, rest)
        else ([], c :: rest)
    | none => ([], c :: rest)
  | _, chars => ([], chars)

def ofDigits (base : Nat) (digits : List Nat) : Nat := digits.foldl (fun n d => n * base + d) 0

def readNumber (base most limit : Nat) (zeroPrefix : Bool) (chars : List Char) :
    Option (Nat × List Char) :=
  let (digits, rest) := takeNumber base most chars
  let value := ofDigits base digits
  if digits.isEmpty || value ≥ limit then none
  else if !zeroPrefix && digits.length > 1 && digits.head? = some 0 then none
  else some (value, rest)

def readMark (mark : Char) : List Char → Option (List Char)
  | c :: rest => if c = mark then some rest else none
  | [] => none

def readOctet (chars : List Char) : Option (Nat × List Char) := readNumber 10 3 256 false chars

def Ipv4.read (chars : List Char) : Option (Ipv4 × List Char) := do
  let (a, rest) ← readOctet chars
  let (b, rest) ← readOctet (← readMark '.' rest)
  let (c, rest) ← readOctet (← readMark '.' rest)
  let (d, rest) ← readOctet (← readMark '.' rest)
  return (⟨[a, b, c, d]⟩, rest)

/-- Up to `left` groups separated by colons, and whether the last two were an IPv4 address, which
needs two places. -/
def readGroups : (left : Nat) → (first : Bool) → List Char → List Nat × Bool × List Char
  | 0, _, chars => ([], false, chars)
  | left + 1, first, chars =>
      match (if first then some chars else readMark ':' chars) with
      | none => ([], false, chars)
      | some start =>
          match (if left > 0 then Ipv4.read start else none) with
          | some (⟨[a, b, c, d]⟩, rest) => ([a * 256 + b, c * 256 + d], true, rest)
          | _ => match readNumber 16 4 65536 true start with
            | none => ([], false, chars)
            | some (group, rest) =>
                let (groups, embedded, rest) := readGroups left false rest
                (group :: groups, embedded, rest)

def Ipv6.read (chars : List Char) : Option (Ipv6 × List Char) :=
  let (head, embedded, rest) := readGroups 8 true chars
  if head.length = 8 then some (⟨head⟩, rest)
  else if embedded then none
  else do
    -- The two colons stand for at least one group of zeros.
    let rest ← readMark ':' rest
    let rest ← readMark ':' rest
    let (tail, _, rest) := readGroups (7 - head.length) true rest
    return (⟨head ++ List.replicate (8 - head.length - tail.length) 0 ++ tail⟩, rest)

def readPort (chars : List Char) : Option (Nat × List Char) :=
  readNumber 10 chars.length 65536 true chars

def readScope : List Char → Option (Nat × List Char)
  | '%' :: rest => readNumber 10 rest.length (Nat.pow 2 32) true rest
  | rest => some (0, rest)

def SocketAddress.readChars (chars : List Char) : Option (SocketAddress × List Char) :=
  match Ipv4.read chars with
  | some (address, rest) => do
      let (port, rest) ← readPort (← readMark ':' rest)
      return (.v4 address port, rest)
  | none => do
      let (address, rest) ← Ipv6.read (← readMark '[' chars)
      let (scope, rest) ← readScope rest
      let (port, rest) ← readPort (← readMark ':' (← readMark ']' rest))
      return (.v6 address scope port, rest)

def SocketAddress.read (text : String) : Option SocketAddress :=
  match SocketAddress.readChars text.toList with
  | some (address, []) => some address
  | _ => none

def SocketAddress.refusal : String := "invalid socket address syntax"

end RingCache.Net
