import RingCache.Json.Basic
import RingCache.Json.Fault
import RingCache.Toml.Basic

/-!
Settings from several sources, laid over one another. A setting remembers the source that it comes
from; a table that sources share belongs to none of them. Keys are compared in lower case.
-/

namespace RingCache.Settings

inductive Origin where
  | file (name : String)
  | environment
  deriving DecidableEq, Repr

def Origin.text : Origin → String
  | .file name => name
  | .environment => "the environment"

inductive Leaf where
  | nothing
  | bool (value : Bool)
  | int (value : Int)
  | float (value : Binary64)
  | text (value : String)
  deriving Repr

inductive Setting where
  | leaf (origin : Option Origin) (value : Leaf)
  | list (origin : Option Origin) (items : List Setting)
  | table (origin : Option Origin) (members : List (String × Setting))
  deriving Inhabited

abbrev Members := List (String × Setting)

def find? (members : Members) (key : String) : Option Setting :=
  (members.find? (·.1 == key)).map (·.2)

def emptyTable : Setting := .table none []

def put (members : Members) (key : String) (setting : Setting) : Members :=
  if members.any (·.1 == key) then
    members.map fun (name, old) => if name = key then (name, setting) else (name, old)
  else members ++ [(key, setting)]

def Setting.members : Setting → Members
  | .table _ members => members
  | _ => []

def Setting.isTable : Setting → Bool
  | .table _ _ => true
  | _ => false

mutual

/-- Lays a setting under a key of a target. A table is laid member by member over what is there;
anything else takes its place. A target that is no table becomes an empty one first. -/
def lay (target : Setting) (key : String) : Setting → Setting
  | .table _ members =>
      let base := if target.isTable then target else emptyTable
      let old := (find? base.members key.toLower).getD emptyTable
      let origin := match base with
        | .table origin _ => origin
        | _ => none
      .table origin (put base.members key.toLower (layAll old members))
  | other =>
      let base := if target.isTable then target else emptyTable
      let origin := match base with
        | .table origin _ => origin
        | _ => none
      .table origin (put base.members key.toLower other)

def layAll (target : Setting) : List (String × Setting) → Setting
  | [] => target
  | (key, setting) :: rest => layAll (lay target key setting) rest

end

-- Paths: a key at the top of a source may name a place deeper down.
inductive Step where
  | member (key : String)
  | item (place : Int)
  deriving DecidableEq, Repr

def isKeyChar (c : Char) : Bool :=
  ('a' ≤ c && c ≤ 'z') || ('A' ≤ c && c ≤ 'Z') || ('0' ≤ c && c ≤ '9') || c = ' ' || c = '_' ||
    c = '-'

def keyText (chars : List Char) : Option (String × List Char) :=
  let key := chars.takeWhile isKeyChar
  if key.isEmpty then none else some (String.ofList key, chars.drop key.length)

def bracketed (chars : List Char) : Option (Int × List Char) :=
  let chars := chars.dropWhile (·.isWhitespace)
  let (negative, digits) := match chars with
    | '-' :: rest => (true, rest)
    | rest => (false, rest)
  let number := digits.takeWhile Char.isDigit
  if number.isEmpty then none
  else
    let value : Int := (number.foldl (fun n c => n * 10 + (c.toNat - 48)) 0 : Nat)
    match (digits.drop number.length).dropWhile (·.isWhitespace) with
    | ']' :: rest => some (if negative then -value else value, rest)
    | _ => none

def furtherSteps : (fuel : Nat) → List Char → Option (List Step)
  | 0, _ => none
  | fuel + 1, chars => match chars with
    | [] => some []
    | '.' :: rest => do
        let (key, rest) ← keyText rest
        return .member key :: (← furtherSteps fuel rest)
    | '[' :: rest => do
        let (place, rest) ← bracketed rest
        return .item place :: (← furtherSteps fuel rest)
    | _ => none

def steps (text : String) : List Step :=
  let read : Option (List Step) := do
    let (key, rest) ← keyText text.toList
    return .member key :: (← furtherSteps (rest.length + 1) rest)
  read.getD [.member text]

def placeIn (size : Nat) (place : Int) : Nat :=
  if place < 0 then (size - place.natAbs) else place.toNat

def changeItem (items : List Setting) (place : Nat) (change : Setting → Setting) : List Setting :=
  let filled := items ++ List.replicate (place + 1 - items.length) (.leaf none .nothing)
  filled.take place ++ change (filled.getD place (.leaf none .nothing)) :: filled.drop (place + 1)

def layAt (target : Setting) (value : Setting) : List Step → Setting
  | [] => target
  | [.member key] => lay target key value
  | .member key :: rest =>
      let (origin, members) := match target with
        | .table origin members => (origin, members)
        | _ => (none, [])
      let old := (find? members key).getD (.leaf none .nothing)
      .table origin (put members key (layAt old value rest))
  | .item place :: rest =>
      let (origin, items) := match target with
        | .list origin items => (origin, items)
        | _ => (none, [])
      let change (old : Setting) := if rest.isEmpty then value else layAt old value rest
      .list origin (changeItem items (placeIn items.length place) change)

def layer (target : Setting) (source : Members) : Setting :=
  source.foldl (fun target (key, setting) => layAt target setting (steps key)) target

end RingCache.Settings
