import RingCache.Json.Schema
import RingCache.Settings.Basic

/-!
Reading settings by a schema. Scalars are converted to the wanted type where they can be: numbers to
truth values, truth values and words to numbers, scalars to texts. What cannot be converted is
reported with its key and its source; a list or table where none is wanted is reported without.
-/

namespace RingCache.Settings

inductive Found where
  | nothing
  | bool (value : Bool)
  | int (value : Int)
  | float (value : Binary64)
  | text (value : String)
  | list
  | table
  deriving Repr

def floatText (value : Binary64) : String :=
  let text := Decimal.plain value
  match value with
  | .finite _ _ _ => if text.contains '.' then text else text ++ ".0"
  | _ => text

def Found.message : Found → String
  | .nothing => "unit value"
  | .bool value => s!"boolean `{value}`"
  | .int value => s!"integer `{value}`"
  | .float value => s!"floating point `{floatText value}`"
  | .text value => s!"string {Text.quoted value}"
  | .list => "sequence"
  | .table => "map"

def Found.convertedMessage : Found → String
  | .int value => s!"64-bit integer `{value}`"
  | other => other.message

inductive Fault where
  | conversion (found : Found) (expected : String) (key : Option String)
      (origin : Option Origin)
  | shape (found : Found) (expected : String)
  | variant (choice name : String)
  | noVariant (choice : String)
  | refused (reason : String)
  deriving Repr

def Fault.message : Fault → String
  | .conversion found expected key origin =>
      let place := match key with
        | none => ""
        | some key => s!" for key `{key}`"
      let source := match origin with
        | none => ""
        | some origin => s!" in {origin.text}"
      s!"invalid type: {found.convertedMessage}, expected {expected}{place}{source}"
  | .shape found expected => s!"invalid type: {found.message}, expected {expected}"
  | .variant choice name => s!"enum {choice} does not have variant constructor {name}"
  | .noVariant choice =>
      s!"value of enum {choice} should be represented by either string or table with exactly " ++
        "one key"
  | .refused reason => reason

def Fault.below (segment : String) : Fault → Fault
  | .conversion found expected key origin =>
      let joined := match key with
        | none => segment
        | some key => if key.startsWith "[" then segment ++ key else segment ++ "." ++ key
      .conversion found expected (some joined) origin
  | fault => fault

def Leaf.found : Leaf → Found
  | .nothing => .nothing
  | .bool value => .bool value
  | .int value => .int value
  | .float value => .float value
  | .text value => .text value

def Setting.found : Setting → Found
  | .leaf _ value => value.found
  | .list _ _ => .list
  | .table _ _ => .table

def Setting.origin : Setting → Option Origin
  | .leaf origin _ => origin
  | .list origin _ => origin
  | .table origin _ => origin

def Setting.refuse (setting : Setting) (expected : String) : Fault :=
  .conversion setting.found expected none setting.origin

def yesWords : List String := ["true", "on", "yes"]
def noWords : List String := ["false", "off", "no"]

def toBool (setting : Setting) : Except Fault Bool :=
  match setting with
  | .leaf _ (.bool value) => .ok value
  | .leaf _ (.int value) => .ok (value != 0)
  | .leaf _ (.float value) => .ok (!value.isZero)
  | .leaf origin (.text value) =>
      let word := value.toLower
      if word = "1" ∨ yesWords.contains word then .ok true
      else if word = "0" ∨ noWords.contains word then .ok false
      else .error (.conversion (.text word) "a boolean" none origin)
  | other => .error (other.refuse "a boolean")

def wholeText? (text : String) : Option Nat :=
  let digits := match text.toList with
    | '+' :: rest => rest
    | rest => rest
  if !digits.isEmpty && digits.all Char.isDigit then
    some (digits.foldl (fun n c => n * 10 + (c.toNat - 48)) 0)
  else none

def toWhole (setting : Setting) : Except Fault Nat :=
  match setting with
  | .leaf _ (.bool value) => .ok value.toNat
  | .leaf _ (.int value) =>
      if 0 ≤ value then .ok value.toNat
      else .error (setting.refuse "an unsigned 64 bit or less integer")
  | .leaf _ (.float value) => .ok (value.clampInt 0 18446744073709551615).toNat
  | .leaf _ (.text value) =>
      -- Words count as truth values, and those as numbers.
      let word := value.toLower
      if yesWords.contains word then .ok 1
      else if noWords.contains word then .ok 0
      else match wholeText? value with
        | some n => if n < Nat.pow 2 64 then .ok n else .error (setting.refuse "an integer")
        | none => .error (setting.refuse "an integer")
  | other => .error (other.refuse "an integer")

def toText (setting : Setting) : Except Fault String :=
  match setting with
  | .leaf _ (.bool value) => .ok (if value then "true" else "false")
  | .leaf _ (.int value) => .ok (toString value)
  | .leaf _ (.float value) => .ok (Decimal.plain value)
  | .leaf _ (.text value) => .ok value
  | other => .error (other.refuse "a string")

def toVariant (choice : String) (variants : List String) (name : String) : Except Fault Json :=
  match variants.find? (·.toLower == name.toLower) with
  | some variant => .ok (.string variant)
  | none => .error (.variant choice name)

mutual

def read : Json.Schema → Setting → Except Fault Json
  | .bool, setting => (toBool setting).map .bool
  | .integer _ _ _, setting => (toWhole setting).map fun n => .int n
  | .string, setting => (toText setting).map .string
  | .text _ read, setting => do
      match read (← toText setting) with
      | .ok normal => return .string normal
      | .error reason => throw (.refused reason)
  | .optional _, .leaf _ .nothing => .ok .null
  | .optional item, setting => read item setting
  | .list item, .list _ items => do
      let values ← items.zipIdx.mapM fun (setting, place) =>
        (read item setting).mapError (Fault.below s!"[{place}]")
      return .array values
  | .choice name variants, .leaf _ (.text value) => toVariant name variants value
  | .choice name variants, .table _ [(key, _)] => toVariant name variants key
  | .choice name _, _ => .error (.noVariant name)
  | .record _ fields, .table _ members => return .object (← readFields fields members)
  | .record _ fields, .list _ items => return .object (← readItems fields 0 items)
  | schema, setting => .error (.shape setting.found schema.expected)

def readFields : List (String × Json.Schema × Option Json) → Members →
    Except Fault (List (String × Json))
  | [], _ => .ok []
  | (name, schema, default) :: fields, members => do
      let value ← match find? members name, default with
        | some setting, _ => (read schema setting).mapError (Fault.below name)
        | none, some value => .ok value
        | none, none => .error (.refused (Json.Mismatch.missing name).text)
      return (name, value) :: (← readFields fields members)

/-- The fields of a record from the items of a list; missing items take their defaults. -/
def readItems : List (String × Json.Schema × Option Json) → (place : Nat) → List Setting →
    Except Fault (List (String × Json))
  | [], _, _ => .ok []
  | (name, schema, default) :: fields, place, items => do
      let value ← match items, default with
        | setting :: _, _ => (read schema setting).mapError (Fault.below s!"[{place}]")
        | [], some value => .ok value
        | [], none => .error (.refused (Json.Mismatch.missing name).text)
      return (name, value) :: (← readItems fields (place + 1) items.tail)

end

end RingCache.Settings
