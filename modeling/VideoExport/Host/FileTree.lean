import VideoExport.Failure
import VideoExport.Text.Path

/-!
# File trees

The files and directories below the working directory. A tree lists its entries under the names that
lead to them; the empty list of names is the working directory itself. `FileTree.locate` follows the
text of a path as the system does: step by step, each through a directory. Nothing exists outside
the working directory.
-/

set_option autoImplicit false

namespace VideoExport

/-- A file: its octets, the time of its last change in nanoseconds since 1970, and whether it may be
run. -/
structure StoredFile where
  content : ByteArray
  modified : Int := 0
  executable : Bool := false

/-- What stands under a path. -/
inductive FileNode where
  | directory
  | file (f : StoredFile)

/-- Files and directories under the names that lead to them. -/
structure FileTree where
  entries : List (List String × FileNode) := []

namespace FileTree

/-- What stands under a list of names. -/
def lookup (t : FileTree) (names : List String) : Option FileNode :=
  if names = [] then some .directory else t.entries.lookup names

/-- Puts a node under a list of names, in place of what was there. -/
def put (t : FileTree) (names : List String) (node : FileNode) : FileTree :=
  ⟨t.entries.filter (fun e => e.1 ≠ names) ++ [(names, node)]⟩

/-- Takes away what stands under a list of names. -/
def erase (t : FileTree) (names : List String) : FileTree :=
  ⟨t.entries.filter fun e => e.1 ≠ names⟩

/-- Takes away a directory and everything below it. -/
def eraseBelow (t : FileTree) (names : List String) : FileTree :=
  ⟨t.entries.filter fun e => !names.isPrefixOf e.1⟩

/-- Whether something lies in a directory. -/
def hasEntries (t : FileTree) (names : List String) : Bool :=
  t.entries.any fun e => names.isPrefixOf e.1 && e.1 ≠ names

/-- Puts a node under names below a directory, and makes the directories on the way. A directory
that exists stays. -/
def plant (t : FileTree) (at' : List String) : List String → FileNode → FileTree
  | [], _ => t
  | [name], node =>
    match node, t.lookup (at' ++ [name]) with
    | .directory, some _ => t
    | node, _ => t.put (at' ++ [name]) node
  | name :: rest, node =>
    let here := at' ++ [name]
    let t := if (t.lookup here).isSome then t else t.put here .directory
    plant t here rest node

/-- The tree of nodes under their paths, put there in order. -/
def ofList (nodes : List (Path × FileNode)) : FileTree :=
  nodes.foldl (fun t e => t.plant [] e.1.parts e.2) {}

/-! ## Paths -/

/-- The longest name of an entry, in octets. -/
def nameLimit : Nat := 255

/-- The longest path, in octets. -/
def pathLimit : Nat := 4095

/-- A place that a path leads to: the names, and what stands there. -/
structure Place where
  names : List String
  node : Option FileNode

/-- Follows names from a directory. The last name may be missing; all others must be directories. -/
def follow (t : FileTree) (at' : List String) : List String → Except FileFault Place
  | [] => .ok ⟨at', t.lookup at'⟩
  | name :: rest =>
    match t.lookup at' with
    | none => .error .notFound
    | some (.file _) => .error .notDirectory
    | some .directory =>
      if name = "" || name = "." then follow t at' rest
      else if name = ".." then
        if at' = [] then .error .notFound else follow t at'.dropLast rest
      else if nameLimit < name.utf8ByteSize then .error .nameTooLong
      else follow t (at' ++ [name]) rest

/-- Follows the text of a path from the working directory. -/
def locate (t : FileTree) (path : String) : Except FileFault Place :=
  if path = "" then .error .notFound
  else if pathLimit < path.utf8ByteSize then .error .nameTooLong
  else
    let names := (Path.splitSlashes path.toList).map String.ofList
    match names with
    | "" :: _ => .error .notFound
    | names => t.follow [] names

/-- The node that a path leads to. -/
def node (t : FileTree) (path : String) : Except FileFault FileNode := do
  match (← t.locate path).node with
  | some n => return n
  | none => throw .notFound

/-- The file that a path leads to. -/
def file (t : FileTree) (path : String) : Except FileFault StoredFile := do
  match ← t.node path with
  | .file f => return f
  | .directory => throw .isDirectory

/-- Writes a file; one that exists keeps whether it may be run. -/
def write (t : FileTree) (path : String) (content : ByteArray) : Except FileFault FileTree := do
  let place ← t.locate path
  match place.node with
  | some .directory => throw .isDirectory
  | some (.file f) => return t.put place.names (.file { f with content })
  | none => return t.put place.names (.file { content })

/-- Removes a file. -/
def unlink (t : FileTree) (path : String) : Except FileFault FileTree := do
  let place ← t.locate path
  match place.node with
  | some .directory => throw .isDirectory
  | some (.file _) => return t.erase place.names
  | none => throw .notFound

/-- Makes a directory in one that exists. -/
def makeDirectory (t : FileTree) (path : String) : Except FileFault FileTree := do
  let place ← t.locate path
  match place.node with
  | some _ => throw .exists
  | none => return t.put place.names .directory

/-- Removes a directory with everything in it; what is no directory stays. -/
def removeDirectory (t : FileTree) (path : String) : FileTree :=
  match t.locate path with
  | .ok ⟨names, some .directory⟩ => t.eraseBelow names
  | _ => t

/-- Whether a path leads to a directory. -/
def isDirectory (t : FileTree) (path : String) : Bool :=
  match t.node path with
  | .ok .directory => true
  | _ => false

/-! ## Listing -/

/-- The names in a directory. -/
def namesIn (t : FileTree) (path : String) : List String :=
  match t.locate path with
  | .ok ⟨names, some .directory⟩ => t.entries.filterMap fun e =>
      if e.1.dropLast = names then e.1.getLast? else none
  | _ => []

/-- The text of a relative path to an entry. -/
def pathText (names : List String) : String := "/".intercalate names

/-- All files with their sizes, and all empty directories, under their paths. -/
def listing (t : FileTree) : List (String × Nat) :=
  (t.entries.filterMap fun (names, node) => match node with
    | .file f => some (pathText names, f.content.size)
    | .directory => if t.hasEntries names then none else some (pathText names ++ "/", 0)).mergeSort
      fun a b => decide (a.1 ≤ b.1)

end FileTree

end VideoExport
