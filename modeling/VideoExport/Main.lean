import Std.Time.DateTime
import VideoExport.CommandLine.Run

/-!
# The program

The program takes a picture of the files that its arguments name, works on that, and then writes
what was changed and prints what was said. It starts no other programs and asks no servers: without
an encoder, an export fails as on a machine that has none.
-/

set_option autoImplicit false

namespace VideoExport.Console

open Std.Time in
/-- The current time. -/
def currentTime : IO Instant := do
  let now ← Timestamp.now
  return ⟨now.toNanosecondsSinceUnixEpoch.val / 1000⟩

/-- A random identifier, in hexadecimal digits. -/
def randomIdentifier : IO String := do
  let octets ← IO.getRandomBytes 16
  return String.ofList (octets.toList.flatMap fun b => Text.hexDigits 2 b.toNat)

/-- The sources of a configuration that names none itself. -/
def sources : ConfigSources := {}

/-- The environment variables that matter. -/
def recognised : List String :=
  "PATH" :: ConfigField.all.map fun f => (sources.variablePrefix ++ f.name).toUpper

def environment : IO (List (String × String)) := do
  let found ← recognised.mapM fun name => do
    return (← IO.getEnv name).map (name, ·)
  return found.filterMap id

/-- The files of paths, as far as they can be read. -/
def picture (paths : List String) : IO FileTree := do
  let found ← paths.mapM fun (path : String) => do
    try
      let content ← IO.FS.readBinFile path
      return some (Path.ofString path, FileNode.file { content })
    catch _ => return none
  return .ofList (found.filterMap id)

/-- The machine as the program sees it. -/
def host (arguments : List String) : IO Host := do
  let environment ← environment
  let paths := [Config.defaultFile, CommandLine.Options.logFile {}] ++ sources.environmentFiles
    ++ arguments ++ environment.map (·.2)
  return {
    files := ← picture paths
    environment
    now := ← currentTime
    identifiers := ← arguments.mapM fun _ => randomIdentifier
    versions := [.missing]
    probes := [.missing]
    processes := [{ missing := true }]
    web := [.unreachable "offline"] }

/-- Writes the files that were changed. -/
def writeChanges (before after : FileTree) : IO Unit := do
  for (names, node) in after.entries do
    match node with
    | .directory => IO.FS.createDirAll (FileTree.pathText names)
    | .file f =>
      let unchanged := match before.lookup names with
        | some (.file g) => f.content.data == g.content.data
        | _ => false
      if !unchanged then IO.FS.writeBinFile (FileTree.pathText names) f.content

end VideoExport.Console

open VideoExport in
def main (arguments : List String) : IO UInt32 := do
  let host ← Console.host arguments
  let (outcome, after) := (CommandLine.run arguments).run host
  Console.writeChanges host.files after.files
  IO.print (after.journal.console after.now)
  IO.eprint after.journal.errors
  match outcome with
  | .returned code => return UInt32.ofNat code
  | .raised f =>
    IO.eprintln f.message
    return 1
  | .stalled => return 1
