import RingCache.Bytes
import RingCache.Decimal.Shortest

/-!
JSON documents. A number is an integer between -2^63 and 2^64 - 1 or a double; an object is a list
of members. Objects that come from a text or from `Json.object` list their members in increasing
order of the key, one member for each key; the printer writes members in the order of the list.
-/

namespace RingCache

inductive Json where
  | null
  | bool (value : Bool)
  | int (value : Int)
  | float (value : Binary64)
  | string (value : String)
  | array (items : List Json)
  | object (members : List (String × Json))
  deriving Inhabited, Repr

namespace Json

def insert (key : String) (value : Json) : List (String × Json) → List (String × Json)
  | [] => [(key, value)]
  | (name, old) :: rest =>
      if key < name then (key, value) :: (name, old) :: rest
      else if key = name then (key, value) :: rest
      else (name, old) :: insert key value rest

def ofMembers (members : List (String × Json)) : Json :=
  .object (members.foldl (fun sorted (key, value) => insert key value sorted) [])

def get? (document : Json) (key : String) : Option Json :=
  match document with
  | .object members => (members.find? (·.1 == key)).map (·.2)
  | _ => none

-- Readers of documents whose shape is known; any other document gives a neutral value.
def field (document : Json) (key : String) : Json := (document.get? key).getD .null

def asNat : Json → Nat
  | .int value => value.toNat
  | _ => 0

def asBool : Json → Bool
  | .bool value => value
  | _ => false

def asString? : Json → Option String
  | .string value => some value
  | _ => none

def asString (document : Json) : String := document.asString?.getD ""

def items : Json → List Json
  | .array items => items
  | _ => []

def ofNat (n : Nat) : Json :=
  if n < Nat.pow 2 64 then .int n else .float (Binary64.ofNat n)

def escapeChar (c : Char) : List Char :=
  if c = '"' then ['\\', '"']
  else if c = '\\' then ['\\', '\\']
  else if c = '\n' then ['\\', 'n']
  else if c = '\r' then ['\\', 'r']
  else if c = '\t' then ['\\', 't']
  else if c = Char.ofNat 8 then ['\\', 'b']
  else if c = Char.ofNat 12 then ['\\', 'f']
  else if c.toNat < 32 then
    ['\\', 'u', '0', '0', Bytes.hexDigit (c.toNat / 16), Bytes.hexDigit (c.toNat % 16)]
  else [c]

def quoted (text : String) : List Char := '"' :: text.toList.flatMap escapeChar ++ ['"']

mutual

def print : Json → List Char
  | .null => "null".toList
  | .bool true => "true".toList
  | .bool false => "false".toList
  | .int value => (toString value).toList
  | .float value => (Decimal.document value).toList
  | .string value => quoted value
  | .array items => '[' :: printItems items
  | .object members => '\x7b' :: printMembers members

def printItems : List Json → List Char
  | [] => [']']
  | [item] => print item ++ [']']
  | item :: rest => print item ++ ',' :: printItems rest

def printMembers : List (String × Json) → List Char
  | [] => ['\x7d']
  | [(key, value)] => quoted key ++ ':' :: print value ++ ['\x7d']
  | (key, value) :: rest => quoted key ++ ':' :: print value ++ ',' :: printMembers rest

end

def text (document : Json) : String := String.ofList document.print

end Json

end RingCache
