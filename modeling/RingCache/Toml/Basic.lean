import RingCache.Decimal.Binary64

/-!
TOML documents while they are read. A table remembers how it came to be, because that decides what
may be added to it: a header may complete a table that was only implied by a longer header, dotted
keys may only extend what dotted keys made, and an inline table is closed.
-/

namespace RingCache.Toml

inductive Scalar where
  | text (value : String)
  | int (value : Int)
  | float (value : Binary64)
  | bool (value : Bool)
  deriving Repr, Inhabited

inductive Making where
  | header
  | implied
  | dotted
  | inline
  deriving DecidableEq, Repr

inductive Item where
  | leaf (value : Scalar)
  | list (items : List Item)
  | table (making : Making) (members : List (String × Item))
  | tables (list : List (List (String × Item)))
  deriving Inhabited

abbrev Members := List (String × Item)

def find? (members : Members) (key : String) : Option Item :=
  (members.find? (·.1 == key)).map (·.2)

def replace (members : Members) (key : String) (item : Item) : Members :=
  if members.any (·.1 == key) then
    members.map fun (name, old) => if name = key then (name, item) else (name, old)
  else members ++ [(key, item)]

/-- Adds the value of a dotted key. The table that takes the last part must be the one the line
stands in, or one that dotted keys made. -/
def putDotted (open_ : Bool) (members : Members) : (key : List String) → Item → Option Members
  | [], _ => none
  | [name], item =>
      if open_ && (find? members name).isNone then some (members ++ [(name, item)]) else none
  | name :: rest, item =>
      match find? members name with
      | none => do
          let inner ← putDotted true [] rest item
          return members ++ [(name, .table .dotted inner)]
      | some (.table .dotted inner) => do
          let inner ← putDotted true inner rest item
          return replace members name (.table .dotted inner)
      | some (.table .implied inner) => do
          let inner ← putDotted false inner rest item
          return replace members name (.table .implied inner)
      | some (.tables list) => do
          let inner ← putDotted false (← list.getLast?) rest item
          return replace members name (.tables (list.dropLast ++ [inner]))
      | _ => none

def changeAt (change : Members → Option Members) (members : Members) :
    (path : List String) → Option Members
  | [] => change members
  | name :: rest =>
      match find? members name with
      | none => do
          let inner ← changeAt change [] rest
          return members ++ [(name, .table .implied inner)]
      | some (.tables list) => do
          let inner ← changeAt change (← list.getLast?) rest
          return replace members name (.tables (list.dropLast ++ [inner]))
      | some (.table making inner) =>
          if making = .inline then none
          else do
            let inner ← changeAt change inner rest
            return replace members name (.table making inner)
      | _ => none

def openTable (name : String) (members : Members) : Option Members :=
  match find? members name with
  | none => some (members ++ [(name, .table .header [])])
  | some (.table .implied inner) => some (replace members name (.table .header inner))
  | _ => none

def appendTable (name : String) (members : Members) : Option Members :=
  match find? members name with
  | none => some (members ++ [(name, .tables [[]])])
  | some (.tables list) => some (replace members name (.tables (list ++ [[]])))
  | _ => none

end RingCache.Toml
