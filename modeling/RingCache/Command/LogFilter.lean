import RingCache.Text.Blank

/-!
Log filters. A filter is a list of directives, each a level for the log targets whose names begin
with its own; the longest name that fits decides. A level alone is for all targets, and a name alone
lets everything through.
-/

namespace RingCache.Command

inductive LogLevel where
  | off
  | error
  | warn
  | info
  | debug
  | trace
  deriving DecidableEq, Repr

namespace LogLevel

def rank : LogLevel → Nat
  | .off => 0
  | .error => 1
  | .warn => 2
  | .info => 3
  | .debug => 4
  | .trace => 5

def name : LogLevel → String
  | .off => "off"
  | .error => "error"
  | .warn => "warn"
  | .info => "info"
  | .debug => "debug"
  | .trace => "trace"

def all : List LogLevel := [.off, .error, .warn, .info, .debug, .trace]

def of? (text : String) : Option LogLevel :=
  let word := text.toLower
  all.find? fun level => level.name == word || toString level.rank == word

end LogLevel

structure Directive where
  target : String
  level : LogLevel
  deriving DecidableEq, Repr

namespace Directive

def mayBegin (c : Char) : Bool :=
  c = '-' || c = ':' || c = '_' || c.isAlphanum || 128 ≤ c.toNat

inductive Fault where
  | form
  | level
  deriving DecidableEq, Repr

def Fault.message : Fault → String
  | .form => "invalid filter directive"
  | .level => "error parsing level filter: expected one of \"off\", \"error\", \"warn\", " ++
      "\"info\", \"debug\", \"trace\", or a number 0-5"

def read (text : String) : Except Fault Directive :=
  let text := Text.trim text
  if !(text.toList.head?.map mayBegin).getD true then .error .form
  else match text.splitOn "=" with
    | [word] => match LogLevel.of? word with
      | some level => .ok ⟨"", level⟩
      | none => .ok ⟨word, .trace⟩
    | [target, ""] => .ok ⟨target, .trace⟩
    | [target, word] => match LogLevel.of? word with
      | some level => .ok ⟨target, level⟩
      | none => .error .level
    | _ => .error .level

def parts (text : String) : List String := (text.splitOn ",").filter (· ≠ "")

end Directive

structure LogFilter where
  directives : List Directive
  deriving DecidableEq, Repr

namespace LogFilter

def ofDirectives (directives : List Directive) : LogFilter :=
  ⟨if directives.isEmpty then [⟨"", .error⟩] else directives⟩

def read (text : String) : Option LogFilter :=
  (((Directive.parts text).mapM Directive.read).map ofDirectives).toOption

/-- The filter of the directives that can be read, and a complaint about each other one. -/
def readLossy (text : String) : LogFilter × List String :=
  let results := (Directive.parts text).map fun part => (part, Directive.read part)
  let complaints := results.filterMap fun (part, result) => match result with
    | .ok _ => none
    | .error fault => some s!"ignoring `{part}`: {fault.message}"
  (ofDirectives (results.filterMap fun (_, result) => result.toOption), complaints)

/-- The directive that decides about a target: the longest that fits, the last of several. -/
def decides (filter : LogFilter) (target : String) : Option Directive :=
  filter.directives.foldl (fun best directive =>
    if !target.startsWith directive.target then best
    else match best with
      | none => some directive
      | some other =>
          if directive.target.length < other.target.length then best else some directive) none

def lets (filter : LogFilter) (target : String) (level : LogLevel) : Bool :=
  match filter.decides target with
  | none => false
  | some directive => level.rank ≤ directive.level.rank

/-- The filter of the environment, or else of the configuration, and the complaints. -/
def choose (given : Option String) (configured : String) : LogFilter × List String :=
  match given.bind read with
  | some filter => (filter, [])
  | none => readLossy configured

end LogFilter

end RingCache.Command
