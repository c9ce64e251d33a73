import VideoExport.Host.Basic
import VideoExport.Media.MediaType
import VideoExport.Operand
import VideoExport.Text.Search

/-!
# Media files

A media file is a path with a declared type. `MediaFile.identityKey` tells whether a file is still
the same: by its name, its size and the time of its last change. `JobNames` are the names under
which a job's files stand in the engine's working storage.
-/

set_option autoImplicit false

namespace VideoExport

/-- A file with a declared media type. -/
structure MediaFile where
  path : Path
  mediaType : String := ""
  deriving DecidableEq

namespace MediaFile

/-- The file of a path, with the type that its name declares. -/
def ofPath (path : Path) : MediaFile := ⟨path, MediaType.guess path.toString⟩

def ofString (s : String) : MediaFile := ofPath (.ofString s)

def name (m : MediaFile) : String := m.path.name

def content (m : MediaFile) : Action Host ByteArray := Host.readFile m.path.toString

def size (m : MediaFile) : Action Host Nat := Host.size m.path.toString

/-- Milliseconds of a time in nanoseconds, as a clock of binary64 seconds has them. -/
def clockMilliseconds (nanoseconds : Int) : Int :=
  let seconds := nanoseconds / 1000000000
  let rest := nanoseconds % 1000000000
  let clock := (Binary64.ofInt seconds).add ((Binary64.ofDecimal false 1 (-9)).mul (.ofInt rest))
  match clock.mul (.ofInt 1000) with
  | .finite x => x.truncate
  | _ => 0

/-- Time of the last change of a node. -/
def modified : FileNode → Int
  | .file f => f.modified
  | .directory => 0

/-- Size of a node. -/
def nodeSize : FileNode → Nat
  | .file f => f.content.size
  | .directory => Host.directorySize

/-- The identity of the file: name, size and time of the last change in milliseconds. -/
def identityKey (m : MediaFile) : Action Host String := do
  let node ← Host.node m.path.toString
  return s!"{m.name}:{nodeSize node}:{clockMilliseconds (modified node)}"

/-- Parts of a declared type and the extensions that they give an image; the first that occurs
counts. -/
def imageExtensions : List (String × String) := [
  ("png", "png"), ("jpeg", "jpg"), ("jpg", "jpg"), ("webp", "webp"), ("gif", "gif")]

/-- The extension for an image of which nothing is known. -/
def defaultExtension : String := "png"

/-- The extension for an image of the declared type. -/
def imageExtension (m : MediaFile) : String :=
  match imageExtensions.find? fun (part, _) => Text.occursIn part.toList m.mediaType.toList with
  | some (_, extension) => extension
  | none => defaultExtension

/-- The extension for an image that declares its type by a value of any kind; one that counts as
false declares nothing. -/
def extensionOf (declared : Value) : Except Failure String := do
  if !declared.isTruthy then return defaultExtension
  let found ← imageExtensions.findM? fun (part, _) => declared.containsText part
  return (found.map (·.2)).getD defaultExtension

end MediaFile

/-- The files attached to an export. -/
structure Attachments where
  image : Option MediaFile := none
  font : Option MediaFile := none
  deriving DecidableEq

/-- The names of a job's entries in working storage. -/
structure JobNames where
  input : String
  output : String
  image : Option String := none
  deriving DecidableEq, Repr

namespace JobNames

/-- The names of a job: its identifier is part of each. -/
def ofJob (job : String) (source : MediaFile) (image : Option MediaFile) : JobNames where
  input := s!"input_{job}{Text.lower source.path.suffix}"
  output := s!"output_{job}.mp4"
  image := image.map fun m => s!"wm_{job}.{m.imageExtension}"

/-- All names of a job. -/
def all (n : JobNames) : List String := [n.input, n.output] ++ n.image.toList

end JobNames

end VideoExport
