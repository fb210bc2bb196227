import RingCache.Json.Reader

/-!
Typed reading. A schema says which data a caller wants; reading by it gives a document in normal
form: the fields of a record in their declared order with defaults filled in, texts as their
reader writes them, the members of a map in the order of their keys. A schema reads a text, with
positions in the faults, or a document that is already in memory. Members that a record does not
know are passed over.
-/

namespace RingCache.Json

inductive Schema where
  | any
  | bool
  | integer (name : String) (low high : Int)
  | string
  /-- A text with a reader of its own, which gives the normal form or the reason of refusal. -/
  | text (expected : String) (read : String → Except String String)
  | list (item : Schema)
  | optional (item : Schema)
  | map (item : Schema)
  | choice (name : String) (variants : List String)
  /-- Fields with their names, schemas and defaults, in order. -/
  | record (name : String) (fields : List (String × Schema × Option Json))

namespace Schema

def u8 : Schema := .integer "u8" 0 255
def u32 : Schema := .integer "u32" 0 4294967295
def u64 : Schema := .integer "u64" 0 18446744073709551615
def usize : Schema := .integer "usize" 0 18446744073709551615
def i64 : Schema := .integer "i64" (-9223372036854775808) 9223372036854775807

def expected : Schema → String
  | .any => "any value"
  | .bool => "a boolean"
  | .integer name _ _ => name
  | .string => "a string"
  | .text expected _ => expected
  | .list _ => "a sequence"
  | .optional _ => "option"
  | .map _ => "a map"
  | .choice _ _ => "string or map"
  | .record name _ => s!"struct {name}"

def arity (name : String) (count : Nat) : String :=
  let noun := if count = 1 then "element" else "elements"
  s!"struct {name} with {count} {noun}"

end Schema

def found : Json → Found
  | .null => .null
  | .bool value => .bool value
  | .int value => .int value
  | .float value => .float value
  | .string value => .string value
  | .array _ => .sequence
  | .object _ => .map

def toInteger (name : String) (low high : Int) : Json → Except Fault Json
  | .int value =>
      if low ≤ value ∧ value ≤ high then .ok (.int value)
      else .error (.ofMismatch (.value (.int value) name))
  | other => .error (.ofMismatch (.type other.found name))

def toText (read : String → Except String String) (text : String) : Except Fault Json :=
  match read text with
  | .ok normal => .ok (.string normal)
  | .error reason => .error (.ofMismatch (.refused reason))

def toVariant (variants : List String) (name : String) : Except Fault Json :=
  if variants.contains name then .ok (.string name)
  else .error (.ofMismatch (.variant name variants))

def assemble (fields : List (String × Schema × Option Json)) (values : List (String × Json)) :
    Except Fault (List (String × Json)) :=
  fields.mapM fun (name, _, default) =>
    match (values.find? (·.1 == name)).map (·.2), default with
    | some value, _ => .ok (name, value)
    | none, some value => .ok (name, value)
    | none, none => .error (.ofMismatch (.missing name))

/-- The fault of a value that is not of the wanted type; the value is read as far as naming it
needs. -/
def wrongType (expected : String) (c : Cursor) : Fault :=
  let mismatch (found : Found) (after : Cursor) : Fault :=
    (Fault.ofMismatch (.type found expected)).located after.place
  match c.rest with
  | [] => c.fault .endInValue
  | octet :: _ =>
      if octet = 91 then mismatch .sequence c
      else if octet = 123 then mismatch .map c
      else match readValue 1 1 c with
        | .ok (value, after) => mismatch value.found after
        | .error fault => fault

def locate (after : Cursor) (result : Except Fault Json) : Reading Json :=
  match result with
  | .ok value => .ok (value, after)
  | .error fault => .error (fault.located after.place)

def skipString (p : Position) : Bytes → Except Fault Cursor
  | [] => .error ⟨.endInString, some p⟩
  | 34 :: rest => .ok ⟨rest, p.past 34⟩
  | [92] => .error ⟨.endInString, some (p.past 92)⟩
  | 92 :: 117 :: a :: b :: c :: d :: rest =>
      let p := p.pastAll [92, 117, a, b, c, d]
      match hexQuad a b c d with
      | some _ => skipString p rest
      | none => .error ⟨.invalidEscape, some p⟩
  | 92 :: 117 :: short => .error ⟨.endInString, some (p.pastAll (92 :: 117 :: short))⟩
  | 92 :: escape :: rest =>
      let p := p.pastAll [92, escape]
      if (simpleEscape escape).isSome then skipString p rest else .error ⟨.invalidEscape, some p⟩
  | octet :: rest =>
      if octet < 32 then .error ⟨.controlCharacter, some p⟩ else skipString (p.past octet) rest

def skipDigits (c : Cursor) : Cursor := (takeDigits ⟨0, 0, 0⟩ c.place c.rest).2

def skipExponent (c : Cursor) : Except Fault Cursor :=
  let c := c.next
  let c := match c.rest with
    | octet :: _ => if octet = 43 || octet = 45 then c.next else c
    | [] => c
  match c.rest with
  | octet :: _ => if isDigit octet then .ok (skipDigits c) else .error (c.next.fault .invalidNumber)
  | [] => .error (c.fault .invalidNumber)

def skipFraction (c : Cursor) : Except Fault Cursor :=
  let c := c.next
  match c.rest with
  | octet :: _ =>
      if !isDigit octet then .error (c.faultAhead .invalidNumber)
      else
        let c := skipDigits c
        match c.rest with
        | 101 :: _ => skipExponent c
        | 69 :: _ => skipExponent c
        | _ => .ok c
  | [] => .error (c.fault .invalidNumber)

def skipNumber (c : Cursor) : Except Fault Cursor :=
  match c.rest with
  | [] => .error (c.fault .invalidNumber)
  | octet :: _ => do
      if !isDigit octet then throw (c.next.fault .invalidNumber)
      let c ←
        if octet = 48 then
          match c.next.rest with
          | following :: _ =>
              if isDigit following then throw (c.next.faultAhead .invalidNumber) else pure c.next
          | [] => pure c.next
        else pure (skipDigits c)
      match c.rest with
      | 46 :: _ => skipFraction c
      | 101 :: _ => skipExponent c
      | 69 :: _ => skipExponent c
      | _ => return c

mutual

/-- Passes over a value inside the brackets `enclosing`, and on to their end. No depth limit
applies to what is passed over. -/
def skipValue : (fuel : Nat) → (enclosing : Bytes) → Cursor → Except Fault Cursor
  | 0, _, c => .error (c.fault .endInValue)
  | fuel + 1, enclosing, c =>
      let c := c.skipBlank
      match c.rest with
      | [] => .error (c.fault .endInValue)
      | octet :: _ => do
          if octet = 91 ∨ octet = 123 then skipRest fuel (octet :: enclosing) false c.next
          else
            let c ←
              if octet = 34 then skipString c.next.place c.next.rest
              else if octet = 45 then skipNumber c.next
              else if isDigit octet then skipNumber c
              else if octet = 110 then readWord [117, 108, 108] c.next
              else if octet = 116 then readWord [114, 117, 101] c.next
              else if octet = 102 then readWord [97, 108, 115, 101] c.next
              else throw (c.faultAhead .expectedValue)
            skipRest fuel enclosing true c

/-- Goes on inside the innermost bracket, behind a value when `behind` is true. -/
def skipRest : (fuel : Nat) → (enclosing : Bytes) → (behind : Bool) → Cursor → Except Fault Cursor
  | 0, _, _, c => .error (c.fault .endInValue)
  | _ + 1, [], _, c => .ok c
  | fuel + 1, bracket :: outer, behind, c =>
      let c := c.skipBlank
      match c.rest with
      | [] => .error (c.fault (if bracket = 91 then .endInList else .endInObject))
      | octet :: _ =>
          if octet = bracket + 2 then skipRest fuel outer true c.next
          else if behind && octet != 44 then
            .error (c.faultAhead (if bracket = 91 then .expectedListEnd else .expectedObjectEnd))
          else do
            let c := if behind then c.next else c
            let c ← if bracket = 91 then pure c else skipKey c
            skipValue fuel (bracket :: outer) c

def skipKey (c : Cursor) : Except Fault Cursor := do
  let c := c.skipBlank
  let c ← match c.rest with
    | [] => throw (c.fault .endInObject)
    | 34 :: _ => skipString c.next.place c.next.rest
    | _ :: _ => throw (c.faultAhead .keyNotString)
  readColon c

end

/-- The place that a fault of a record gets when its reading stops: behind blanks, and behind the
closing brace if that comes next. -/
def recordEnd (c : Cursor) : Position :=
  let c := c.skipBlank
  match c.rest with
  | 125 :: _ => c.next.place
  | _ => c.place

def closeList (c : Cursor) : Except Fault Cursor :=
  let c := c.skipBlank
  match c.rest with
  | [] => .error (c.fault .endInList)
  | 93 :: _ => .ok c.next
  | 44 :: _ =>
      let c := c.next.skipBlank
      match c.rest with
      | 93 :: _ => .error (c.faultAhead .trailingComma)
      | _ => .error (c.faultAhead .trailingCharacters)
  | _ :: _ => .error (c.faultAhead .trailingCharacters)

mutual

def readAs : (fuel : Nat) → Schema → (depth : Nat) → Cursor → Except Fault (Json × Cursor)
  | 0, _, _, c => .error (c.fault .endInValue)
  | fuel + 1, schema, depth, c => do
      let c := c.skipBlank
      let opening ← match c.rest with
        | [] => throw (c.fault .endInValue)
        | octet :: _ => pure octet
      match schema with
      | .any => readValue (fuel + 1) depth c
      | .bool =>
          if opening = 116 then
            let c ← readWord [114, 117, 101] c.next
            return (.bool true, c)
          else if opening = 102 then
            let c ← readWord [97, 108, 115, 101] c.next
            return (.bool false, c)
          else throw (wrongType schema.expected c)
      | .integer name low high =>
          if opening = 45 ∨ isDigit opening then
            let (number, c) ← if opening = 45 then readNumber true c.next else readNumber false c
            locate c (toInteger name low high number)
          else throw (wrongType schema.expected c)
      | .string =>
          if opening = 34 then
            let (text, c) ← readString c.next
            return (.string text, c)
          else throw (wrongType schema.expected c)
      | .text _ read =>
          if opening = 34 then
            let (text, c) ← readString c.next
            locate c (toText read text)
          else throw (wrongType schema.expected c)
      | .optional item =>
          if opening = 110 then
            let c ← readWord [117, 108, 108] c.next
            return (.null, c)
          else readAs fuel item depth c
      | .list item =>
          if opening = 91 then
            if depth ≤ 1 then throw (c.faultAhead .tooDeep)
            readList fuel item (depth - 1) [] c.next
          else throw (wrongType schema.expected c)
      | .map item =>
          if opening = 123 then
            if depth ≤ 1 then throw (c.faultAhead .tooDeep)
            readMap fuel item (depth - 1) true [] c.next
          else throw (wrongType schema.expected c)
      | .choice _ variants =>
          if opening = 34 then
            let (name, c) ← readString c.next
            locate c (toVariant variants name)
          else if opening = 123 then
            if depth ≤ 1 then throw (c.faultAhead .tooDeep)
            readTagged variants c.next
          else throw (c.faultAhead .expectedValue)
      | .record name fields =>
          if opening = 91 then
            if depth ≤ 1 then throw (c.faultAhead .tooDeep)
            readPositional fuel name fields.length fields (depth - 1) [] c.next
          else if opening = 123 then
            if depth ≤ 1 then throw (c.faultAhead .tooDeep)
            readFields fuel fields (depth - 1) true [] c.next
          else throw (wrongType schema.expected c)

def readList : (fuel : Nat) → Schema → (depth : Nat) → (seen : List Json) → Cursor →
    Except Fault (Json × Cursor)
  | 0, _, _, _, c => .error (c.fault .endInList)
  | fuel + 1, item, depth, seen, c => do
      let (more, c) ← moreItems seen.isEmpty c
      if !more then return (.array seen.reverse, c)
      let (value, c) ← readAs fuel item depth c
      readList fuel item depth (value :: seen) c

def readMap : (fuel : Nat) → Schema → (depth : Nat) → (first : Bool) →
    (seen : List (String × Json)) → Cursor → Except Fault (Json × Cursor)
  | 0, _, _, _, _, c => .error (c.fault .endInObject)
  | fuel + 1, item, depth, first, seen, c => do
      let (more, c) ← moreMembers first c
      if !more then return (.object seen, c)
      let (key, c) ← readString c.next
      let c ← readColon c
      let (value, c) ← readAs fuel item depth c
      readMap fuel item depth false (insert key value seen) c

def readTagged (variants : List String) (c : Cursor) : Except Fault (Json × Cursor) := do
  let c := c.skipBlank
  let (name, c) ← match c.rest with
    | [] => throw (c.fault .endInValue)
    | 34 :: _ => readString c.next
    | _ :: _ => throw (wrongType "variant identifier" c)
  let (variant, c) ← locate c (toVariant variants name)
  let c := (← readColon c).skipBlank
  let c ← match c.rest with
    | [] => throw (c.fault .endInValue)
    | 110 :: _ => readWord [117, 108, 108] c.next
    | _ :: _ => throw (wrongType "unit" c)
  let c := c.skipBlank
  match c.rest with
  | [] => throw (c.fault .endInObject)
  | 125 :: _ => return (variant, c.next)
  | _ :: _ => throw (c.fault .expectedValue)

/-- Reads a record written as a sequence; missing elements take their defaults. -/
def readPositional : (fuel : Nat) → (name : String) → (count : Nat) →
    List (String × Schema × Option Json) → (depth : Nat) → (seen : List (String × Json)) → Cursor →
    Except Fault (Json × Cursor)
  | 0, _, _, _, _, _, c => .error (c.fault .endInList)
  | _ + 1, _, _, [], _, seen, c => do
      let c ← closeList c
      return (.object seen.reverse, c)
  | fuel + 1, name, count, (field, schema, default) :: fields, depth, seen, c => do
      let (more, c) ← moreItems seen.isEmpty c
      if more then
        let (value, c) ← readAs fuel schema depth c
        readPositional fuel name count fields depth ((field, value) :: seen) c
      else
        let rest := (field, schema, default) :: fields
        let values ← rest.zipIdx.mapM fun ((field, _, default), place) =>
          match default with
          | some value => pure (field, value)
          | none =>
              throw ((Fault.ofMismatch
                (.length (seen.length + place) (Schema.arity name count))).located c.place)
        return (.object (seen.reverse ++ values), c)

def readFields : (fuel : Nat) → (fields : List (String × Schema × Option Json)) → (depth : Nat) →
    (first : Bool) → (seen : List (String × Json)) → Cursor → Except Fault (Json × Cursor)
  | 0, _, _, _, _, c => .error (c.fault .endInObject)
  | fuel + 1, fields, depth, first, seen, c => do
      let (more, c) ← moreMembers first c
      if !more then
        match assemble fields seen with
        | .ok members => return (.object members, c)
        | .error fault => throw (fault.located c.place)
      let (key, c) ← readString c.next
      match fields.find? (·.1 == key) with
      | none =>
          let c ← readColon c
          let c ← skipValue fuel [] c
          readFields fuel fields depth false seen c
      | some (_, schema, _) =>
          if seen.any (·.1 == key) then
            throw ((Fault.ofMismatch (.duplicate key)).located (recordEnd c))
          let c ← readColon c
          let (value, c) ← readAs fuel schema depth c
          readFields fuel fields depth false ((key, value) :: seen) c

end

def Schema.parse (schema : Schema) (bytes : Bytes) : Except Fault Json := do
  let (document, c) ← readAs (fuelFor bytes) schema depthLimit (.ofBytes bytes)
  finish c
  return document

def unitContent : Json → Except Fault Unit
  | .null => .ok ()
  | other => .error (.ofMismatch (.type other.found "unit"))

mutual

def Schema.ofJson : Schema → Json → Except Fault Json
  | .any, document => .ok document
  | .bool, .bool value => .ok (.bool value)
  | .integer name low high, document => toInteger name low high document
  | .string, .string value => .ok (.string value)
  | .text _ read, .string value => toText read value
  | .optional _, .null => .ok .null
  | .optional item, document => item.ofJson document
  | .list item, .array items => do return .array (← items.mapM item.ofJson)
  | .map item, .object members => do
      let values ← members.mapM fun (key, value) => do return (key, ← item.ofJson value)
      return ofMembers values
  | .choice _ variants, .string name => toVariant variants name
  | .choice _ variants, .object [(name, content)] => do
      let variant ← toVariant variants name
      unitContent content
      return variant
  | .choice _ _, .object _ => .error (.ofMismatch (.value .map "map with a single key"))
  | .record name fields, .array items => do
      let values ← ofItems name fields.length fields 0 items
      if items.length > fields.length then
        .error (.ofMismatch (.length items.length "fewer elements in array"))
      else return .object values
  | .record _ fields, .object members => do
      let values ← members.filterMapM fun (key, value) => do
        match ofField fields key value with
        | none => return none
        | some result => return some (key, ← result)
      return .object (← assemble fields values)
  | schema, document => .error (.ofMismatch (.type document.found schema.expected))

def ofField : List (String × Schema × Option Json) → (key : String) → Json →
    Option (Except Fault Json)
  | [], _, _ => none
  | (name, schema, _) :: fields, key, value =>
      if name = key then some (schema.ofJson value) else ofField fields key value

def ofItems (name : String) (count : Nat) : List (String × Schema × Option Json) →
    (place : Nat) → List Json → Except Fault (List (String × Json))
  | [], _, _ => .ok []
  | (field, schema, _) :: fields, place, item :: items => do
      let value ← schema.ofJson item
      return (field, value) :: (← ofItems name count fields (place + 1) items)
  | (field, _, default) :: fields, place, [] => do
      let value ← match default with
        | some value => pure value
        | none => .error (.ofMismatch (.length place (Schema.arity name count)))
      return (field, value) :: (← ofItems name count fields (place + 1) [])

end

end RingCache.Json
