import VideoExport.Config.Dotenv
import VideoExport.Config.Sources
import VideoExport.Host.Basic
import VideoExport.Json.Reader

/-!
# Loading the configuration

The values of a configuration come from its file, the environment, environment files and files of
secrets; the first that names a field decides (`Config.ofSources`). Variables are the names of the
fields after a prefix. A name that is no field is refused in a file and passed over in the
environment and among the secrets.
-/

set_option autoImplicit false

namespace VideoExport.Config

/-- The file that is read unless another is given. -/
def defaultFile : String := "config.json"

/-- Entries that take precedence over others: what the first name, the others do not change. -/
def override (first others : List (String × Value)) : List (String × Value) :=
  first ++ others.filter fun e => !first.any (·.1 = e.1)

/-- The configuration of entries, the environment, the variables of environment files, and the
entries that secrets give. -/
def ofSources (s : ConfigSources) (entries : List (String × Value))
    (environment : List (String × String)) (files : List (String × Option String))
    (secrets : List (String × Value)) : Except Failure Config :=
  let fileVariables := (s.byName (files.filter fun (_, v) => v.all s.counts)).filterMap
    fun (name, v) => v.map (name, ·)
  let ownVariables := s.byName (environment.filter fun (_, v) => s.counts v)
  let inherited := override (s.fieldsOf ownVariables) (s.fieldsOf fileVariables)
  let known := override (s.spelled entries) (override inherited secrets)
  ofEntries (override (s.strangersOf fileVariables) known)

/-- The variables of an environment file, if it exists. The log tells of statements that cannot be
read. -/
def readEnvironmentFile (s : ConfigSources) (file : String) :
    Action Host (List (String × Option String)) := do
  let path := (Path.ofString file).toString
  if !(← Host.isFile path) then return []
  let encoding ← Action.ofExcept (match Text.Encoding.ofName? s.encoding with
    | some e => .ok e
    | none => .error (.unknownEncoding s.encoding))
  let text ← Host.readText path encoding
  for line in Dotenv.unreadableLines text do
    Host.append (.record ⟨.warning, .environmentFile,
      s!"python-dotenv could not parse statement starting at line {line}"⟩)
  return Dotenv.read (← Action.get).environment text

/-- The entry that a directory of secrets gives for a field: the text of the file that has the name
of the field's variable. -/
def readSecret (s : ConfigSources) (f : ConfigField) (directory : String) :
    Action Host (Option (String × Value)) := do
  let h ← Action.get
  match (h.files.namesIn directory).find? fun name => s.fold name = s.variableName f with
  | none => return none
  | some name =>
    let path := ((Path.ofString directory).child name).toString
    if !(← Host.isFile path) then return none
    match ← (Host.readText path .utf8).attempt with
    | .ok text => return some (f.name, .text (String.ofList (Text.strip text.toList)))
    | .error _ => .raise (.source .secrets f.name)

/-- The entries that the directories of secrets give. A directory that does not exist gives none. -/
def readSecrets (s : ConfigSources) : Action Host (List (String × Value)) := do
  let directories ← s.secretDirectories.filterM fun d => Host.pathExists (Path.ofString d).toString
  for d in directories do
    if ← Host.isFile (Path.ofString d).toString then .raise .secretsFile
  let found ← ConfigField.all.mapM fun f => do
    return (← directories.reverse.mapM (readSecret s f)).findSome? id
  return found.filterMap id

/-- The configuration of entries on a host. -/
def assemble (entries : List (String × Value)) : Action Host Config := do
  let s ← Action.ofExcept (ConfigSources.ofEntries entries)
  let files ← s.environmentFiles.mapM (readEnvironmentFile s)
  let secrets ← readSecrets s
  Action.ofExcept (ofSources s entries (← Action.get).environment files.flatten secrets)

/-- Loads the configuration from a file, if that exists. -/
def load (file : Option Path) : Action Host Config := do
  let path := (file.getD (.ofString defaultFile)).toString
  if ← Host.pathExists path then
    match ← Action.ofExcept ((Json.read (← Host.readText path .utf8)).mapError .document) with
    | .map entries => assemble entries
    | v => Action.raise (.configShape v)
  else assemble []

end VideoExport.Config
