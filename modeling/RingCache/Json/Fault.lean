import RingCache.Decimal.Shortest
import RingCache.Text.Quoted

/-!
What can be wrong with a JSON document: its text, or the shape of its data. A fault found while a
text is read carries the line and the column (bytes of the line read so far); a fault found in a
document that is already in memory carries no position.
-/

namespace RingCache.Json

structure Position where
  line : Nat
  column : Nat
  deriving DecidableEq, Repr

def Position.start : Position := ⟨1, 0⟩

def Position.past (p : Position) (octet : UInt8) : Position :=
  if octet = 10 then ⟨p.line + 1, 0⟩ else ⟨p.line, p.column + 1⟩

def Position.pastAll (p : Position) (octets : Bytes) : Position := octets.foldl Position.past p

inductive Found where
  | null
  | bool (value : Bool)
  | int (value : Int)
  | float (value : Binary64)
  | string (value : String)
  | sequence
  | map
  deriving Repr

def Found.text : Found → String
  | .null => "null"
  | .bool value => s!"boolean `{value}`"
  | .int value => s!"integer `{value}`"
  | .float value => s!"floating point `{Decimal.document value}`"
  | .string value => s!"string {Text.quoted value}"
  | .sequence => "sequence"
  | .map => "map"

inductive Mismatch where
  | type (found : Found) (expected : String)
  | value (found : Found) (expected : String)
  | length (found : Nat) (expected : String)
  | missing (field : String)
  | duplicate (field : String)
  | variant (found : String) (known : List String)
  | refused (reason : String)
  deriving Repr

def Mismatch.text : Mismatch → String
  | .type found expected => s!"invalid type: {found.text}, expected {expected}"
  | .value found expected => s!"invalid value: {found.text}, expected {expected}"
  | .length found expected => s!"invalid length {found}, expected {expected}"
  | .missing field => s!"missing field `{field}`"
  | .duplicate field => s!"duplicate field `{field}`"
  | .variant found known =>
      let names := ", ".intercalate (known.map fun name => s!"`{name}`")
      s!"unknown variant `{found}`, expected one of {names}"
  | .refused reason => reason

inductive Problem where
  | endInValue
  | endInList
  | endInObject
  | endInString
  | expectedColon
  | expectedListEnd
  | expectedObjectEnd
  | expectedIdent
  | expectedValue
  | invalidEscape
  | invalidNumber
  | numberOutOfRange
  | invalidCodePoint
  | controlCharacter
  | keyNotString
  | loneSurrogate
  | trailingComma
  | trailingCharacters
  | endOfHexEscape
  | tooDeep
  | data (mismatch : Mismatch)
  deriving Repr

def Problem.text : Problem → String
  | .endInValue => "EOF while parsing a value"
  | .endInList => "EOF while parsing a list"
  | .endInObject => "EOF while parsing an object"
  | .endInString => "EOF while parsing a string"
  | .expectedColon => "expected `:`"
  | .expectedListEnd => "expected `,` or `]`"
  | .expectedObjectEnd => "expected `,` or `\x7d`"
  | .expectedIdent => "expected ident"
  | .expectedValue => "expected value"
  | .invalidEscape => "invalid escape"
  | .invalidNumber => "invalid number"
  | .numberOutOfRange => "number out of range"
  | .invalidCodePoint => "invalid unicode code point"
  | .controlCharacter => "control character (\\u0000-\\u001F) found while parsing a string"
  | .keyNotString => "key must be a string"
  | .loneSurrogate => "lone leading surrogate in hex escape"
  | .trailingComma => "trailing comma"
  | .trailingCharacters => "trailing characters"
  | .endOfHexEscape => "unexpected end of hex escape"
  | .tooDeep => "recursion limit exceeded"
  | .data mismatch => mismatch.text

structure Fault where
  problem : Problem
  position : Option Position
  deriving Repr

def Fault.message (fault : Fault) : String :=
  match fault.position with
  | none => fault.problem.text
  | some p => s!"{fault.problem.text} at line {p.line} column {p.column}"

def Fault.ofMismatch (mismatch : Mismatch) : Fault := ⟨.data mismatch, none⟩

def Fault.located (fault : Fault) (p : Position) : Fault :=
  match fault.position with
  | none => { fault with position := some p }
  | some _ => fault

end RingCache.Json
