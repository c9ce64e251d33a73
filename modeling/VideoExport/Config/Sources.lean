import VideoExport.Config.Field
import VideoExport.Operand
import VideoExport.Text.Encoding

/-!
# Sources of the configuration

Besides its file, a configuration takes values from the environment, from environment files and from
directories of secrets. `ConfigSources` says where these are and how names are compared there. The
entries of a configuration may say so themselves, under names that start with an underscore and are
no fields (`ConfigSources.ofEntries`).
-/

set_option autoImplicit false

namespace VideoExport

/-- Where the values of a configuration come from besides its entries. -/
structure ConfigSources where
  /-- What precedes the name of a field in a variable. -/
  variablePrefix : String := "APP_"
  /-- Names are to be written as they are, not in any case. -/
  exactNames : Bool := false
  /-- Later files take precedence over earlier ones. -/
  environmentFiles : List String := [".env"]
  /-- The encoding of the environment files, by its name. -/
  encoding : String := "utf8"
  /-- Empty variables count as absent. -/
  skipsEmpty : Bool := false
  /-- The text of a variable that stands for no value. -/
  nullWord : Option String := none
  /-- Directories with a file for each variable; later ones take precedence. -/
  secretDirectories : List String := []

namespace ConfigSources

/-- The entries that say where values come from. -/
inductive Setting where
  | variablePrefix
  | exactNames
  | environmentFiles
  | encoding
  | skipsEmpty
  | nullWord
  | secretDirectories
  deriving DecidableEq, Repr

namespace Setting

def all : List Setting := [
  .exactNames, .environmentFiles, .encoding, .skipsEmpty, .nullWord, .variablePrefix,
  .secretDirectories]

def name : Setting → String
  | .variablePrefix => "_env_prefix"
  | .exactNames => "_case_sensitive"
  | .environmentFiles => "_env_file"
  | .encoding => "_env_file_encoding"
  | .skipsEmpty => "_env_ignore_empty"
  | .nullWord => "_env_parse_none_str"
  | .secretDirectories => "_secrets_dir"

end Setting

/-- Names of entries that say nothing about values of the kinds that the fields have, or about
places outside the working directory. -/
def idleNames : List String := [
  "_nested_model_default_partial_update", "_env_prefix_target", "_env_file_depth",
  "_env_nested_delimiter",
  "_env_nested_max_split", "_env_parse_enums", "_cli_prog_name", "_cli_parse_args",
  "_cli_settings_source", "_cli_parse_none_str", "_cli_hide_none_type", "_cli_avoid_json",
  "_cli_enforce_required", "_cli_use_class_docs_for_groups", "_cli_exit_on_error", "_cli_prefix",
  "_cli_flag_prefix_char", "_cli_implicit_flags", "_cli_ignore_unknown_args", "_cli_kebab_case",
  "_cli_shortcuts", "_build_sources"]

/-- Whether an entry is about the sources and not about a field. -/
def isSetting (name : String) : Bool :=
  Setting.all.any (·.name = name) || idleNames.contains name

/-- The paths that a value gives: one, or several as its items or keys. -/
def paths : Value → Except Failure (List String)
  | .null => .ok []
  | .text s => .ok [s]
  | .list items => items.mapM Value.asPath
  | .map entries => .ok (entries.map (·.1))
  | v => .error (.misuse (.items v.kindName))

/-- The sources with a setting changed. `null` changes nothing, except that it takes away all files
or directories. -/
def set (s : ConfigSources) (setting : Setting) (v : Value) : Except Failure ConfigSources := do
  match setting, v with
  | .environmentFiles, v => return { s with environmentFiles := ← paths v }
  | .secretDirectories, v => return { s with secretDirectories := ← paths v }
  | _, .null => return s
  | .variablePrefix, .text t => return { s with variablePrefix := t }
  | .variablePrefix, _ => throw (.source .environment (ConfigField.encoder.name))
  | .exactNames, v => return { s with exactNames := v.isTruthy }
  | .encoding, .text t => return { s with encoding := t }
  | .encoding, _ => return s
  | .skipsEmpty, v => return { s with skipsEmpty := v.isTruthy }
  | .nullWord, .text t => return { s with nullWord := some t }
  | .nullWord, _ => return s

/-- The sources that entries ask for. -/
def ofEntries (entries : List (String × Value)) : Except Failure ConfigSources :=
  Setting.all.foldlM (fun s setting =>
    match entries.lookup setting.name with
    | some v => s.set setting v
    | none => .ok s) {}

/-- A name in the form in which names are compared. -/
def fold (s : ConfigSources) (name : String) : String :=
  if s.exactNames then name else Text.lower name

/-- The variable of a field. -/
def variableName (s : ConfigSources) (f : ConfigField) : String :=
  s.fold s.variablePrefix ++ f.name

/-- The value that the text of a variable stands for. -/
def value (s : ConfigSources) (text : String) : Value :=
  if s.nullWord = some text then .null else .text text

/-- Whether a variable of a text counts as present. -/
def counts (s : ConfigSources) (text : String) : Bool := !(s.skipsEmpty && text.isEmpty)

/-- Variables under the names by which they are compared; of equal names the last one counts. -/
def byName {α : Type} (s : ConfigSources) (named : List (String × α)) : List (String × α) :=
  named.foldl (fun known (name, v) =>
    let name := s.fold name
    if known.any (·.1 = name) then known.map fun e => if e.1 = name then (name, v) else e
    else known ++ [(name, v)]) []

/-- The entries that variables give. -/
def fieldsOf (s : ConfigSources) (named : List (String × String)) : List (String × Value) :=
  ConfigField.all.filterMap fun f =>
    (named.lookup (s.variableName f)).map fun v => (f.name, s.value v)

/-- The variables of an environment file that stand for no field: those with a value, unless they
are the bare name of a field. -/
def strangersOf (s : ConfigSources) (named : List (String × String)) : List (String × Value) :=
  (named.filter fun (name, v) =>
    !v.isEmpty && (ConfigField.ofName? name).isNone
      && !ConfigField.all.any fun f => s.variableName f = name).map fun (name, v) => (name, .text v)

/-- The entries about fields. Each field has the first entry that spells its name; the others that
spell it are left out. Entries that spell no field come last. -/
def spelled (s : ConfigSources) (entries : List (String × Value)) : List (String × Value) :=
  let about := entries.filter fun (name, _) => !isSetting name
  let fields := ConfigField.all.filterMap fun f =>
    (about.find? fun (name, _) => s.fold name = f.name).map fun (_, v) => (f.name, v)
  fields ++ about.filter fun (name, _) => (ConfigField.ofName? (s.fold name)).isNone

end ConfigSources

end VideoExport
