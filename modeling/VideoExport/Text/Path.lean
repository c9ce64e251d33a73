/-!
# Paths

A path is a root and the names below it. Reading a path drops empty names and single dots and keeps
double dots. The name, its suffix and its stem are those of the last component.
-/

set_option autoImplicit false

namespace VideoExport

/-- A path: a root, which is empty for a relative path, and the names below it. -/
structure Path where
  root : String
  parts : List String
  deriving DecidableEq

namespace Path

/-- The names of a text between slashes. -/
def splitSlashes : List Char → List (List Char)
  | [] => [[]]
  | c :: rest =>
    if c = '/' then [] :: splitSlashes rest
    else match splitSlashes rest with
      | [] => [[c]]
      | first :: others => (c :: first) :: others

/-- Two leading slashes, and no third, are a root of their own. -/
def rootOf (s : List Char) : String :=
  match s with
  | '/' :: '/' :: '/' :: _ => "/"
  | '/' :: '/' :: _ => "//"
  | '/' :: _ => "/"
  | _ => ""

/-- Reads a path. -/
def ofString (s : String) : Path where
  root := rootOf s.toList
  parts := ((splitSlashes s.toList).filter fun p => !p.isEmpty && p != ['.']).map String.ofList

/-- The text of a path; a path without names or root is a dot. -/
def toString (p : Path) : String :=
  if p.root.isEmpty && p.parts.isEmpty then "." else p.root ++ "/".intercalate p.parts

instance : ToString Path := ⟨Path.toString⟩

/-- The last component, empty if there is none. -/
def name (p : Path) : String := p.parts.getLastD ""

/-- Place of the dot that starts the suffix of a name: not its first nor its last character. -/
def suffixStart? (name : List Char) : Option Nat :=
  let last := (name.reverse.takeWhile (· ≠ '.')).length
  let at' := name.length - last - 1
  if name.contains '.' && 0 < at' && at' + 1 < name.length then some at' else none

/-- The end of the name from its last dot on. -/
def suffix (p : Path) : String :=
  match suffixStart? p.name.toList with
  | some i => String.ofList (p.name.toList.drop i)
  | none => ""

/-- The name without its suffix. -/
def stem (p : Path) : String :=
  match suffixStart? p.name.toList with
  | some i => String.ofList (p.name.toList.take i)
  | none => p.name

/-- The path without its last component. -/
def parent (p : Path) : Path := { p with parts := p.parts.dropLast }

/-- The path `q` seen from `p`; an absolute `q` replaces `p`. -/
def join (p q : Path) : Path :=
  if q.root.isEmpty then { p with parts := p.parts ++ q.parts } else q

/-- The path of a name below `p`. -/
def child (p : Path) (name : String) : Path := p.join (ofString name)

end Path

end VideoExport
