import RingCache.Config.Basic
import RingCache.Settings.Source
import RingCache.Table
import RingCache.Toml.Reader

/-!
Loading a configuration: the defaults, over them a file, over it variables of the environment. The
extension of the file names its format.
-/

namespace RingCache.Config

structure Sources where
  files : Table Bytes
  directory : String
  environment : List (String × String)

def standardFile : String := "cache.toml"

def standardMark : String := "RCACHE"

def listKey : String := "cache.distribution"

inductive Format where
  | toml
  | json
  deriving DecidableEq, Repr

def pathParts (path : String) : List String :=
  (path.splitOn "/").filter fun part => part ≠ "" && part ≠ "."

def isAbsolute (path : String) : Bool := path.startsWith "/"

/-- The path leads to the working directory, to one above it, or to the root. -/
def isDirectory (path : String) : Bool := path ≠ "" && (pathParts path).all (· = "..")

def fileName? (path : String) : Option String :=
  if path.endsWith "/" || path.endsWith "/." then none
  else some ((if isAbsolute path then "/" else "") ++ "/".intercalate (pathParts path))

def fullPath (directory path : String) : String :=
  if isAbsolute path then path else directory ++ "/" ++ path

def extension (name : String) : String :=
  let last := ((pathParts name).getLastD "").toList
  let behind := last.reverse.takeWhile (· ≠ '.')
  if behind.length + 1 < last.length then String.ofList behind.reverse else ""

def Format.of? (name : String) : Option Format :=
  if extension name = "toml" then some .toml
  else if extension name = "json" then some .json
  else none

def readFile (format : Format) (name : String) (content : Bytes) :
    Except ConfigFault Settings.Members :=
  let origin := Settings.Origin.file name
  match Utf8.decode content with
  | .error _ => .error (.fileSyntax name)
  | .ok text => match format with
    | .toml => match Toml.read text with
      | some members => .ok (Settings.ofTomlMembers origin members)
      | none => .error (.fileSyntax name)
    | .json => match Json.parse content with
      | .ok (.object members) => .ok (Settings.ofJsonMembers origin members)
      | .ok other => .error (.fileShape (Settings.ofJson origin other).found name)
      | .error _ => .error (.fileSyntax name)

def fileMembers (directory path name : String) (content : Bytes) :
    Except ConfigFault Settings.Members :=
  match Format.of? name with
  | none => .error (.fileFormat (fullPath directory path))
  | some format => readFile format name content

/-- The members of the file asked for, or else of the usual file if it is there. -/
def chosenMembers (sources : Sources) (path : Option String) :
    Except ConfigFault Settings.Members :=
  let file? (name : String) := (sources.files.get? name).map fun content => (name, content)
  match path with
  | some path =>
      if isDirectory path then .error (.noFile path)
      else match (fileName? path).bind file? with
        | none => .error (.fileMissing path)
        | some (name, content) => fileMembers sources.directory path name content
  | none => match file? standardFile with
    | none => .ok []
    | some (name, content) => fileMembers sources.directory name name content

def document (sources : Sources) (mark : String) (path : Option String) :
    Except ConfigFault Json := do
  let members ← chosenMembers sources path
  let overrides : Settings.Environment := ⟨mark, listKey⟩
  let setting := Settings.layer (Settings.layer Settings.emptyTable members)
    (overrides.members sources.environment)
  (Settings.read schema setting).mapError .setting

def load (sources : Sources) (mark : String) (path : Option String) : Except CacheError Config :=
  match document sources mark path with
  | .error fault => .error (.config fault)
  | .ok document =>
      let config := ofJson document
      match config.validate with
      | .error error => .error error
      | .ok () => .ok config

end RingCache.Config
