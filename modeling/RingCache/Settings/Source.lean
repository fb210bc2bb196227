import RingCache.Json.Reader
import RingCache.Settings.Basic
import RingCache.Toml.Reader

namespace RingCache.Settings

def Leaf.ofToml : Toml.Scalar → Leaf
  | .text value => .text value
  | .int value => .int value
  | .float value => .float value
  | .bool value => .bool value

mutual

def ofTomlItem (origin : Origin) : Toml.Item → Setting
  | .leaf value => .leaf (some origin) (.ofToml value)
  | .list items => .list (some origin) (ofTomlItems origin items)
  | .table _ members => .table (some origin) (ofTomlMembers origin members)
  | .tables list => .list (some origin) (ofTomlTables origin list)

def ofTomlItems (origin : Origin) : List Toml.Item → List Setting
  | [] => []
  | item :: rest => ofTomlItem origin item :: ofTomlItems origin rest

def ofTomlMembers (origin : Origin) : List (String × Toml.Item) → List (String × Setting)
  | [] => []
  | (key, item) :: rest => (key, ofTomlItem origin item) :: ofTomlMembers origin rest

def ofTomlTables (origin : Origin) : List (List (String × Toml.Item)) → List Setting
  | [] => []
  | members :: rest =>
      .table (some origin) (ofTomlMembers origin members) :: ofTomlTables origin rest

end

/-- An integer beyond 63 bits is a float. -/
def Leaf.ofInt (value : Int) : Leaf :=
  if value ≤ 9223372036854775807 then .int value else .float (Binary64.ofNat value.toNat)

mutual

def ofJson (origin : Origin) : Json → Setting
  | .null => .leaf (some origin) .nothing
  | .bool value => .leaf (some origin) (.bool value)
  | .int value => .leaf (some origin) (.ofInt value)
  | .float value => .leaf (some origin) (.float value)
  | .string value => .leaf (some origin) (.text value)
  | .array items => .list (some origin) (ofJsonItems origin items)
  | .object members => .table (some origin) (ofJsonMembers origin members)

def ofJsonItems (origin : Origin) : List Json → List Setting
  | [] => []
  | item :: rest => ofJson origin item :: ofJsonItems origin rest

def ofJsonMembers (origin : Origin) : List (String × Json) → List (String × Setting)
  | [] => []
  | (key, item) :: rest => (key, ofJson origin item) :: ofJsonMembers origin rest

end

-- The environment. A variable belongs to the source when its name, in lower case, begins with the
-- mark of the source and two underscores; further pairs of underscores separate the parts of the
-- key.
structure Environment where
  mark : String
  listKey : String

def pointed : List Char → List Char
  | '_' :: '_' :: rest => '.' :: pointed rest
  | c :: rest => c :: pointed rest
  | [] => []

def Environment.key? (source : Environment) (name : String) : Option String :=
  let front := (source.mark ++ "__").toLower.toList
  let chars := name.toLower.toList
  if front.isPrefixOf chars then some (String.ofList (pointed (chars.drop front.length))) else none

def isDigits (chars : List Char) : Bool := !chars.isEmpty && chars.all Char.isDigit

def digitsValue (chars : List Char) : Nat := chars.foldl (fun n c => n * 10 + (c.toNat - 48)) 0

def unsigned (chars : List Char) : Bool × List Char :=
  match chars with
  | '-' :: rest => (true, rest)
  | '+' :: rest => (false, rest)
  | rest => (false, rest)

def integer? (text : String) : Option Int :=
  let (negative, digits) := unsigned text.toList
  let value : Int := digitsValue digits
  let value := if negative then -value else value
  if isDigits digits ∧ -9223372036854775808 ≤ value ∧ value ≤ 9223372036854775807 then some value
  else none

def decimal? (negative : Bool) (chars : List Char) : Option Binary64 :=
  let whole := chars.takeWhile Char.isDigit
  let rest := chars.drop whole.length
  let (fraction, rest) := match rest with
    | '.' :: rest => (rest.takeWhile Char.isDigit, rest.dropWhile Char.isDigit)
    | rest => ([], rest)
  if whole.isEmpty ∧ fraction.isEmpty then none
  else
    let number (exponent : Int) :=
      Binary64.ofDecimal negative (digitsValue (whole ++ fraction)) (exponent - fraction.length)
    match rest with
    | [] => some (number 0)
    | mark :: rest =>
        let (down, digits) := unsigned rest
        if (mark = 'e' || mark = 'E') && isDigits digits then
          let exponent : Int := digitsValue digits
          some (number (if down then -exponent else exponent))
        else none

def float? (text : String) : Option Binary64 :=
  let (negative, rest) := unsigned text.toList
  let word := (String.ofList rest).toLower
  if word = "inf" ∨ word = "infinity" then some (.infinite negative)
  else if word = "nan" then some .nan
  else decimal? negative rest

/-- What the value of a variable is read as: a truth value, a number, the list at the key of the
list, or a text. -/
def Environment.setting (source : Environment) (key value : String) : Setting :=
  let leaf := Setting.leaf (some .environment)
  if value.toLower = "true" then leaf (.bool true)
  else if value.toLower = "false" then leaf (.bool false)
  else match integer? value with
    | some n => leaf (.int n)
    | none => match float? value with
      | some x => leaf (.float x)
      | none =>
          if key = source.listKey then
            .list (some .environment) ((value.splitOn ",").map fun item => leaf (.text item))
          else leaf (.text value)

def Environment.members (source : Environment) (listing : List (String × String)) : Members :=
  listing.filterMap fun (name, value) =>
    (source.key? name).map fun key => (key, source.setting key value)

end RingCache.Settings
