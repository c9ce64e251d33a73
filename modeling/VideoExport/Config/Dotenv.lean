import VideoExport.Text.Blank

/-!
# Environment files

An environment file has a statement `NAME=value` for each variable; blank lines and comments are
passed over, and a statement that cannot be read is skipped and told of (`unreadableLines`). A value
may be quoted, which allows escapes and line breaks, and may refer to other variables as `${NAME}`
or `${NAME:-fallback}`.
-/

set_option autoImplicit false

namespace VideoExport.Dotenv

/-- A statement that is not passed over. -/
inductive Statement where
  /-- A variable with its value, if it has one. -/
  | binding (name : String) (value : Option String)
  /-- One that cannot be read, by the line where it starts. -/
  | unreadable (line : Nat)
  deriving DecidableEq, Repr

def isLineEnd (c : Char) : Bool := c = '\n' || c = '\r'

/-- A blank that ends no line. -/
def isSpace (c : Char) : Bool := Text.isBlank c && !isLineEnd c

/-- The text after a line's end. -/
def afterLine (s : List Char) : List Char :=
  match s.dropWhile (!isLineEnd ·) with
  | '\r' :: '\n' :: rest => rest
  | _ :: rest => rest
  | [] => []

/-- The text after a line's end if nothing but blanks precedes it. -/
def lineEnd? (s : List Char) : Option (List Char) :=
  match s.dropWhile isSpace with
  | '\r' :: '\n' :: rest => some rest
  | '\n' :: rest => some rest
  | '\r' :: rest => some rest
  | [] => some []
  | _ => none

/-- Passes over a comment. -/
def skipComment (s : List Char) : List Char :=
  match s.dropWhile isSpace with
  | '#' :: rest => rest.dropWhile (!isLineEnd ·)
  | _ => s

/-- Passes over the word that marks an exported variable. -/
def skipExport (s : List Char) : List Char :=
  match s with
  | 'e' :: 'x' :: 'p' :: 'o' :: 'r' :: 't' :: c :: rest =>
    if isSpace c then rest.dropWhile isSpace else s
  | _ => s

/-- Text up to a mark, and what follows it. The character after a backslash is no mark. -/
def quotation (mark : Char) : List Char → Option (List Char × List Char)
  | [] => none
  | '\\' :: c :: rest =>
    (quotation mark rest).map fun (inside, after) => ('\\' :: c :: inside, after)
  | c :: rest =>
    if c = mark then some ([], rest)
    else (quotation mark rest).map fun (inside, after) => (c :: inside, after)

/-- Resolves the escapes that a quotation allows. -/
def unescape (double : Bool) : List Char → List Char
  | '\\' :: c :: rest =>
    match c with
    | '\\' => '\\' :: unescape double rest
    | '\'' => '\'' :: unescape double rest
    | c =>
      if double then
        match c with
        | '"' => '"' :: unescape double rest
        | 'a' => Char.ofNat 7 :: unescape double rest
        | 'b' => Char.ofNat 8 :: unescape double rest
        | 'f' => Char.ofNat 12 :: unescape double rest
        | 'n' => '\n' :: unescape double rest
        | 'r' => '\r' :: unescape double rest
        | 't' => '\t' :: unescape double rest
        | 'v' => Char.ofNat 11 :: unescape double rest
        | c => '\\' :: c :: unescape double rest
      else '\\' :: c :: unescape double rest
  | c :: rest => c :: unescape double rest
  | [] => []

/-- The text before a comment; a blank must precede the comment's sign. -/
def beforeComment (previousBlank : Bool) : List Char → List Char
  | [] => []
  | c :: rest =>
    if c = '#' && previousBlank then [] else c :: beforeComment (Text.isBlank c) rest

/-- A value without quotation: up to the end of the line or a comment. -/
def bareValue (afterBlank : Bool) (s : List Char) : List Char :=
  let line := s.takeWhile (!isLineEnd ·)
  ((beforeComment afterBlank line).reverse.dropWhile Text.isBlank).reverse

/-- A value, and what follows it. `afterBlank` tells whether a blank precedes it. -/
def readValue (afterBlank : Bool) (s : List Char) : Option (List Char × List Char) :=
  match s with
  | '\'' :: rest => (quotation '\'' rest).map fun (inside, after) => (unescape false inside, after)
  | '"' :: rest => (quotation '"' rest).map fun (inside, after) => (unescape true inside, after)
  | s => some (bareValue afterBlank s, s.dropWhile (!isLineEnd ·))

/-- The name of a variable, and what follows it; `none` for a comment's name. -/
def readName (s : List Char) : Option (Option (List Char) × List Char) :=
  match s with
  | '#' :: _ => some (none, s)
  | '\'' :: rest =>
    let name := rest.takeWhile (· ≠ '\'')
    match rest.drop name.length with
    | '\'' :: after => if name.isEmpty then none else some (some name, after)
    | _ => none
  | s =>
    let name := s.takeWhile fun c => c ≠ '=' && c ≠ '#' && !Text.isBlank c
    if name.isEmpty then none else some (some name, s.drop name.length)

/-- A part of the text, or else the text that could not be read. -/
def orUnread {α : Type} (part : Option α) (s : List Char) : Except (List Char) α :=
  match part with
  | some x => .ok x
  | none => .error s

/-- A variable, if it is no comment, with its value, if it has one; and what follows it. Or else the
text from where it cannot be read. -/
def readBinding (s : List Char) :
    Except (List Char) (Option (String × Option String) × List Char) := do
  let s := skipExport s
  let (name, rest) ← orUnread (readName s) s
  let rest := rest.dropWhile isSpace
  let (value, rest) ← match rest with
    | '=' :: more =>
      let start := more.dropWhile isSpace
      let value? := readValue (start.length < more.length) start
      orUnread (value?.map fun (v, after) => (some v, after)) start
    | other => pure (none, other)
  let rest := skipComment rest
  let rest ← orUnread (lineEnd? rest) rest
  return (name.map fun n => (String.ofList n, value.map String.ofList), rest)

/-- Number of line ends. -/
def lineEnds : List Char → Nat
  | '\r' :: '\n' :: rest => lineEnds rest + 1
  | c :: rest => lineEnds rest + if isLineEnd c then 1 else 0
  | [] => 0

/-- All statements from a line on. A statement starts where the one before it ends, even if blank
lines come first. The fuel is the number of characters. -/
def readStatements : Nat → Nat → List Char → List Statement
  | 0, _, _ => []
  | fuel + 1, line, s =>
    match s.dropWhile Text.isBlank with
    | [] => []
    | start =>
      let goOn (rest : List Char) : List Statement :=
        readStatements fuel (line + lineEnds (s.take (s.length - rest.length))) rest
      match readBinding start with
      | .ok (some (name, value), rest) => .binding name value :: goOn rest
      | .ok (none, rest) => goOn rest
      | .error unread => .unreadable line :: goOn (afterLine unread)

/-- A text without the byte order mark that it may start with. -/
def withoutMark (s : List Char) : List Char :=
  match s with
  | c :: rest => if c = Char.ofNat 0xFEFF then rest else s
  | [] => []

/-- The statements of a file. -/
def statements (s : String) : List Statement :=
  readStatements (s.length + 1) 1 (withoutMark s.toList)

/-- Puts the values of variables in place of the references to them; the fuel is the number of
characters. -/
def expand (value? : String → Option String) : Nat → List Char → List Char
  | 0, s => s
  | _, [] => []
  | fuel + 1, '$' :: '\x7b' :: rest =>
    let name := rest.takeWhile fun c => c ≠ ':' && c ≠ '\x7d'
    match rest.drop name.length with
    | '\x7d' :: after =>
      ((value? (String.ofList name)).getD "").toList ++ expand value? fuel after
    | ':' :: '-' :: more =>
      let fallback := more.takeWhile (· ≠ '\x7d')
      match more.drop fallback.length with
      | '\x7d' :: after =>
        ((value? (String.ofList name)).getD (String.ofList fallback)).toList
          ++ expand value? fuel after
      | _ => '$' :: expand value? fuel ('\x7b' :: rest)
    | _ => '$' :: expand value? fuel ('\x7b' :: rest)
  | fuel + 1, c :: rest => c :: expand value? fuel rest

/-- The variables of a file with their values; a reference means the value that was given before, or
else that of the environment. A name that comes again changes its value. -/
def resolve (environment : List (String × String)) :
    List (String × Option String) → List (String × Option String) → List (String × Option String)
  | known, [] => known
  | known, (name, value) :: rest =>
    let lookup (n : String) : Option String :=
      match known.lookup n with
      | some v => some (v.getD "")
      | none => environment.lookup n
    let value := value.map fun v => String.ofList (expand lookup (v.length + 1) v.toList)
    let known := if known.any (·.1 = name) then
        known.map fun e => if e.1 = name then (name, value) else e
      else known ++ [(name, value)]
    resolve environment known rest

/-- The variables of a file. -/
def read (environment : List (String × String)) (s : String) : List (String × Option String) :=
  resolve environment [] ((statements s).filterMap fun
    | .binding name value => some (name, value)
    | .unreadable _ => none)

/-- The lines where the statements start that cannot be read. -/
def unreadableLines (s : String) : List Nat :=
  (statements s).filterMap fun
    | .binding _ _ => none
    | .unreadable line => some line

end VideoExport.Dotenv
