import VideoExport.Media.TypeTable
import VideoExport.Text.Lowercase

/-!
# Media types by name

`MediaType.guess` tells the media type that the name of a file declares. A name may be a locator
with a scheme; data locators carry their type in themselves.
-/

set_option autoImplicit false

namespace VideoExport.MediaType

/-- A path without its extension, and the extension with its dot. A name's leading dots start no
extension. -/
def splitExtension (path : List Char) : List Char × List Char :=
  let name := (path.reverse.takeWhile (· ≠ '/')).reverse
  let body := name.dropWhile (· = '.')
  if body.contains '.' then
    let tail := (body.reverse.takeWhile (· ≠ '.')).length + 1
    (path.take (path.length - tail), path.drop (path.length - tail))
  else (path, [])

/-- The scheme of a locator and what follows it. -/
def splitScheme (s : List Char) : Option (List Char) × List Char :=
  let scheme := s.takeWhile fun c => c ≠ ':' && c ≠ '/'
  match s.drop scheme.length with
  | ':' :: rest => if scheme.isEmpty then (none, s) else (some scheme, rest)
  | _ => (none, s)

/-- The type that a data locator declares. -/
def dataType? (body : List Char) : Option String :=
  if body.contains ',' then
    let declared := (body.takeWhile (· ≠ ',')).takeWhile (· ≠ ';')
    if declared.contains '=' || !declared.contains '/' then some "text/plain"
    else some (String.ofList declared)
  else none

/-- Replaces an extension that stands for two. -/
def expandSuffix (base extension : List Char) : List Char × List Char :=
  match suffixes.lookup (Text.lower (String.ofList extension)) with
  | some expansion => splitExtension (base ++ expansion.toList)
  | none => (base, extension)

/-- The extension that tells the type: the one before an encoding. -/
def typeExtension (path : List Char) : String :=
  let (base, extension) := splitExtension path
  let (base, extension) := expandSuffix base extension
  let inner := if encodings.contains (String.ofList extension) then (splitExtension base).2
    else extension
  Text.lower (String.ofList inner)

/-- The type of an extension. -/
def ofExtension? (extension : String) : Option String :=
  (table.find? fun (_, extensions) => extensions.contains extension).map (·.1)

/-- The type that a path declares, if any. -/
def declared? (path : String) : Option String :=
  match splitScheme path.toList with
  | (some scheme, body) =>
    if Text.lower (String.ofList scheme) = "data" then dataType? body
    else ofExtension? (typeExtension body)
  | (none, body) => ofExtension? (typeExtension body)

/-- The type of what declares none. -/
def unknown : String := "application/octet-stream"

/-- The media type of a path. -/
def guess (path : String) : String :=
  match declared? path with
  | some type => if type.isEmpty then unknown else type
  | none => unknown

end VideoExport.MediaType
