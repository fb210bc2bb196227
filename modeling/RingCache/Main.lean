import RingCache.Command.Startup
import Std.Time.DateTime.Timestamp

namespace RingCache.Command

def readFiles (tokens : List String) : IO (Table Bytes) := do
  let named : String := match Arguments.read tokens with
    | .ok arguments => arguments.config.getD Config.standardFile
    | .error _ => Config.standardFile
  try
    let content ← IO.FS.readBinFile named
    return Table.empty.insert ((Config.fileName? named).getD named) content.toList
  catch _ => return .empty

def readEnvironment : IO (List (String × String)) := do
  try
    let listing ← IO.FS.readFile "/proc/self/environ"
    return (listing.splitOn "\x00").filterMap fun line =>
      match line.splitOn "=" with
      | name :: value :: rest => some (name, "=".intercalate (value :: rest))
      | _ => none
  catch _ => return []

def currentInstant : IO Time.Instant := do
  let nanos := (← Std.Time.Timestamp.now).toNanosecondsSinceUnixEpoch.toInt
  return ⟨nanos / 1000000000, (nanos % 1000000000).toNat⟩

def printLog (json : Bool) (message : String) : IO Unit :=
  if json then IO.println (Json.object [("message", .string message)]).text
  else IO.println message

partial def waitForEnd (input : IO.FS.Stream) : IO Unit := do
  let line ← input.getLine
  if line.isEmpty then return () else waitForEnd input

end RingCache.Command

open RingCache RingCache.Command in
def main (tokens : List String) : IO UInt32 := do
  let files ← readFiles tokens
  let environment ← readEnvironment
  let directory ← IO.currentDir
  let octets ← IO.getRandomBytes 16
  let sources : Config.Sources := ⟨files, directory.toString, environment⟩
  let startup := start ⟨sources, .ofRandom octets.toList, ← currentInstant⟩ tokens
  startup.output.complaints.forM IO.eprintln
  startup.output.logs.forM (printLog startup.output.json)
  match startup.result with
  | .error message =>
      IO.eprintln message
      return 1
  | .ok _ =>
      waitForEnd (← IO.getStdin)
      if !startup.output.logs.isEmpty then printLog startup.output.json shutdownLog
      return 0
