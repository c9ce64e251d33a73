import VideoExport.Failure
import VideoExport.Settings.Sanitize

/-!
# Settings documents

Settings are stored as a JSON map with one entry per field. `Settings.read` reads them back:
whatever is no JSON document gives the default settings, except that a document may nest too
deeply to be read at all.
-/

set_option autoImplicit false

namespace VideoExport

/-- What settings are read from. -/
inductive Source where
  | text (s : String)
  | octets (bytes : List UInt8)
  /-- Something that is neither text nor octets. -/
  | other

/-- What a value gives to read. -/
def Source.ofValue : Value → Source
  | .text s => .text s
  | .octets bytes => .octets bytes
  | _ => .other

namespace Json.Layout

/-- The indentation that a value asks for: a text, or as many blanks as an integer says. -/
def indentation : Value → Except Failure (Option String)
  | .null => .ok none
  | .text s => .ok (some s)
  | v => match v.asNumber? with
    | some (.int n) => .ok (some (String.ofList (List.replicate n.toNat ' ')))
    | _ => .error (.misuse (.repetition v.kindName))

/-- The separators of items and of keys that a value asks for: two texts, or a text of two
characters. -/
def separators (indented : Bool) : Value → Except Failure (String × String)
  | .list [.text item, .text key] => .ok (item, key)
  | .text s => match s.toList with
    | [item, key] => .ok (item.toString, key.toString)
    | characters => .error (.notPair characters.length)
  | .list items =>
    if items.length = 2 then .ok unasked else .error (.notPair items.length)
  | _ => .ok unasked
where
  unasked : String × String := (if indented then "," else ", ", ": ")

/-- Names of the options, of which the last ones do not change the layout of settings. -/
def optionNames : List String := [
  "indent", "ensure_ascii", "sort_keys", "separators", "allow_nan", "skipkeys", "check_circular",
  "cls", "default"]

/-- Refuses options of another name. -/
def checkOptions : Value → Except Failure Unit
  | .map options => match options.find? fun (name, _) => !optionNames.contains name with
    | some (name, _) => .error (.misuse (.option "JSONEncoder.__init__" name))
    | none => .ok ()
  | _ => .ok ()

/-- The layout that options ask for under their names. -/
def ofOptions (options : Value) : Except Failure Json.Layout := do
  checkOptions options
  let option (name : String) : Value := (options.get? name).getD .null
  let switch (name : String) : Bool := ((options.get? name).map Value.isTruthy).getD true
  let indented := match option "indent" with
    | .null => false
    | _ => true
  let (itemSeparator, keySeparator) ← separators indented (option "separators")
  return {
    indent := ← indentation (option "indent")
    asciiOnly := switch "ensure_ascii"
    sortKeys := (option "sort_keys").isTruthy
    itemSeparator, keySeparator
    allowNonFinite := switch "allow_nan" }

end Json.Layout

/-- Writes a record as a document. -/
def Record.write (r : Record) (layout : Json.Layout) : Except Json.WriteError String :=
  Json.write layout r.document

/-- Writes settings as a document. -/
def Settings.write (s : Settings) (layout : Json.Layout) : Except Json.WriteError String :=
  s.record.write layout

/-- The value of a document; `null` if it is none. -/
def Source.value : Source → Except Failure Value
  | .text s => recover (Json.read s)
  | .octets bytes => match Json.readBytes bytes with
    | some outcome => recover outcome
    | none => .ok .null
  | .other => .ok .null
where
  recover : Except Json.ReadError Value → Except Failure Value
    | .ok v => .ok v
    | .error (.tooDeep atMap) => .error (.document (.tooDeep atMap))
    | .error _ => .ok .null

/-- Reads settings from a document. -/
def Settings.read (source : Source) (hasImage : Bool) : Except Failure Settings := do
  let v ← source.value
  (Settings.sanitize (.value v) hasImage).mapError .numeric

end VideoExport
