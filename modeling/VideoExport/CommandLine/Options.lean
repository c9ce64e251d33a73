import VideoExport.Text.DecimalDigit
import VideoExport.Text.Quoted

/-!
# Options

The options of the command line, and what each argument is. `CommandLine.scan` sorts the arguments:
options, whose names may be shortened as long as they stay distinct, words, and the mark after which
everything is a word.
-/

set_option autoImplicit false

namespace VideoExport.CommandLine

/-- What an option is about. -/
inductive Topic where
  | help
  | settings
  | image
  | font
  | outputDirectory
  | config
  | logFile
  | debug
  deriving DecidableEq, Repr

/-- An option. -/
structure Switch where
  topic : Topic
  /-- Its spellings. -/
  spellings : List String
  /-- The word that stands for its value in the help, if it takes one. -/
  placeholder : Option String := none
  help : String
  deriving DecidableEq, Repr

namespace Switch

def takesValue (s : Switch) : Bool := s.placeholder.isSome

/-- How complaints name an option. -/
def title (s : Switch) : String := "/".intercalate s.spellings

end Switch

/-- The option that every command has. -/
def helpSwitch : Switch :=
  { topic := .help, spellings := ["-h", "--help"], help := "show this help message and exit" }

/-- The options before the command. -/
def globalSwitches : List Switch := [
  helpSwitch,
  { topic := .settings, spellings := ["--settings"], placeholder := some "SETTINGS"
    help := "Arquivo JSON com as configurações (formato de preset)" },
  { topic := .image, spellings := ["--watermark-image"], placeholder := some "WATERMARK_IMAGE"
    help := "Imagem da marca d'água" },
  { topic := .font, spellings := ["--font"], placeholder := some "FONT"
    help := "Fonte (.ttf/.otf) da marca d'água de texto" },
  { topic := .outputDirectory, spellings := ["--output-dir"], placeholder := some "OUTPUT_DIR"
    help := "Diretório de saída" },
  { topic := .config, spellings := ["--config"], placeholder := some "CONFIG"
    help := "Arquivo config.json" },
  { topic := .logFile, spellings := ["--log-file"], placeholder := some "LOG_FILE"
    help := "Arquivo de log" },
  { topic := .debug, spellings := ["--debug"], help := "Log detalhado" }]

/-- The options after the command. -/
def commandSwitches : List Switch := [helpSwitch]

/-! ## Complaints -/

/-- A command. -/
inductive Verb where
  | single
  | several
  deriving DecidableEq, Repr

namespace Verb

def name : Verb → String
  | .single => "export"
  | .several => "batch"

def all : List Verb := [.single, .several]

/-- The command of a name. -/
def ofName? (s : String) : Option Verb := all.find? fun c => c.name = s

/-- The name of a command's argument. -/
def operand : Verb → String
  | .single => "video"
  | .several => "videos"

end Verb

/-- What is wrong with a command line. -/
inductive Complaint where
  /-- A shortened option that several options fit. -/
  | ambiguous (given : String) (fitting : List String)
  | valueMissing (s : Switch)
  /-- A value for an option that takes none. -/
  | valueIgnored (s : Switch) (value : String)
  | unknownCommand (given : String)
  /-- Something that must be given is not. -/
  | missing (what : String)
  | unrecognized (given : List String)
  deriving DecidableEq, Repr

/-- What a complaint says. -/
def Complaint.message : Complaint → String
  | .ambiguous given fitting =>
    let shown := ", ".intercalate fitting
    s!"ambiguous option: {given} could match {shown}"
  | .valueMissing s => s!"argument {s.title}: expected one argument"
  | .valueIgnored s value => s!"argument {s.title}: ignored explicit argument {Text.quoted value}"
  | .unknownCommand given =>
    let choices := ", ".intercalate (Verb.all.map fun c => Text.quoted c.name)
    s!"argument command: invalid choice: {Text.quoted given} (choose from {choices})"
  | .missing what => s!"the following arguments are required: {what}"
  | .unrecognized given => "unrecognized arguments: " ++ " ".intercalate given

/-! ## Tokens -/

/-- A value that is attached to an option: after an equals sign, or straight after a short
option. -/
structure Attached where
  /-- The option is a short one, so that the value may also be the letters of further options. -/
  clustered : Bool
  value : String
  deriving DecidableEq, Repr

/-- The value that an option which wants one takes; the separator's text counts as nothing. -/
def Attached.wanted (a : Attached) : String := if a.value = "--" then "" else a.value

/-- What an argument is. -/
inductive TokenKind where
  | word
  /-- The mark after which everything is a word. -/
  | separator
  | switch (s : Switch) (attached : Option Attached)
  /-- It looks like an option, but there is no such one. -/
  | stranger
  deriving DecidableEq, Repr

/-- An argument and what it is. -/
structure Token where
  text : String
  kind : TokenKind
  deriving DecidableEq, Repr

/-- Whether a text is written like a negative number; a line break may follow. -/
def isNegativeNumber (s : List Char) : Bool :=
  let isDigit (c : Char) : Bool := (Text.digitValue? c).isSome
  let body := if s.getLast? = some '\n' then s.dropLast else s
  match body with
  | '-' :: digits =>
    match digits.dropWhile isDigit with
    | [] => !digits.isEmpty
    | '.' :: fraction => !fraction.isEmpty && fraction.all isDigit
    | _ => false
  | _ => false

/-- All options with each of their spellings. -/
def spelled (switches : List Switch) : List (String × Switch) :=
  switches.flatMap fun s => s.spellings.map (·, s)

/-- The options that a shortened one fits, with their spellings. A name after two dashes may be
shortened; a short option may have its value straight after it. -/
def fitting (switches : List Switch) (s : String) : List (String × TokenKind) :=
  let chars := s.toList
  match chars with
  | '-' :: '-' :: _ =>
    let name := chars.takeWhile (· ≠ '=')
    let attached : Option Attached :=
      if chars.contains '=' then
        some ⟨false, String.ofList ((chars.dropWhile (· ≠ '=')).drop 1)⟩
      else none
    ((spelled switches).filter fun e => name.isPrefixOf e.1.toList).map fun e =>
      (e.1, .switch e.2 attached)
  | _ =>
    ((spelled switches).filter fun e => e.1.toList = chars.take 2).map fun e =>
      (e.1, .switch e.2 (some ⟨true, String.ofList (chars.drop 2)⟩))

/-- What an argument before the separator is. -/
def classify (switches : List Switch) (s : String) : Except Complaint TokenKind :=
  let chars := s.toList
  if chars.head? ≠ some '-' || chars.length = 1 then .ok .word
  else match (spelled switches).lookup s with
    | some switch => .ok (.switch switch none)
    | none =>
      let name := String.ofList (chars.takeWhile (· ≠ '='))
      let value := String.ofList ((chars.dropWhile (· ≠ '=')).drop 1)
      match (spelled switches).lookup name with
      | some switch => .ok (.switch switch (some ⟨name.length = 2, value⟩))
      | none =>
        match fitting switches s with
        | [(_, kind)] => .ok kind
        | [] => .ok (if isNegativeNumber chars || chars.contains ' ' then .word else .stranger)
        | several => .error (.ambiguous s (several.map (·.1)))

/-- Sorts the arguments. -/
def scan (switches : List Switch) : List String → Except Complaint (List Token)
  | [] => .ok []
  | s :: rest =>
    if s = "--" then .ok (⟨s, .separator⟩ :: rest.map fun s => ⟨s, .word⟩)
    else do
      let kind ← classify switches s
      return ⟨s, kind⟩ :: (← scan switches rest)

end VideoExport.CommandLine
