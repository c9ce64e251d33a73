import VideoExport.CommandLine.Parse

/-!
# Help

The texts that explain the command line. Help is laid out in two columns; a name that is too wide
for the first has a line of its own.
-/

set_option autoImplicit false

namespace VideoExport.CommandLine

def programName : String := "vtransform"

/-- What the program is for. -/
def purpose : String := "Aplica transformações de vídeo usando FFmpeg."

namespace Verb

/-- What a command does. -/
def help : Verb → String
  | .single => "Exporta um único vídeo"
  | .several => "Exporta vários vídeos em sequência"

/-- How a command's operands are written. -/
def operandUsage : Verb → String
  | .single => "video"
  | .several => "videos [videos ...]"

/-- What a command's operands are. -/
def operandHelp : Verb → String
  | .single => "Vídeo de entrada"
  | .several => "Vídeos de entrada"

end Verb

/-- The name of the program, or of one of its commands. -/
def title : Option Verb → String
  | none => programName
  | some c => s!"{programName} {c.name}"

/-- How the program, or one of its commands, is called. -/
def usage : Option Verb → String
  | none =>
    s!"usage: {programName} [-h] [--settings SETTINGS]\n"
      ++ "                  [--watermark-image WATERMARK_IMAGE] [--font FONT]\n"
      ++ "                  [--output-dir OUTPUT_DIR] [--config CONFIG]\n"
      ++ "                  [--log-file LOG_FILE] [--debug]\n"
      ++ "                  \x7bexport,batch\x7d ...\n"
  | some c => s!"usage: {title (some c)} [-h] {c.operandUsage}\n"

/-- Blanks. -/
def blanks (n : Nat) : String := String.ofList (List.replicate n ' ')

/-- A row of the help, whose second column begins at `column`. -/
def helpRow (column indent : Nat) (name text : String) : String :=
  let start := blanks indent ++ name
  if start.length + 2 ≤ column then start ++ blanks (column - start.length) ++ text ++ "\n"
  else start ++ "\n" ++ blanks column ++ text ++ "\n"

/-- An option as the help shows it. -/
def Switch.shown (s : Switch) : String :=
  ", ".intercalate (s.spellings.map fun spelling => match s.placeholder with
    | some word => s!"{spelling} {word}"
    | none => spelling)

/-- The rows of options. -/
def switchRows (column : Nat) (switches : List Switch) : String :=
  String.join (switches.map fun s => helpRow column 2 s.shown s.help)

/-- The help of the program, or of one of its commands. -/
def help : Option Verb → String
  | none =>
    usage none ++ "\n" ++ purpose ++ "\n\npositional arguments:\n  \x7bexport,batch\x7d\n"
      ++ String.join (Verb.all.map fun c => helpRow 24 4 c.name c.help)
      ++ "\noptions:\n" ++ switchRows 24 globalSwitches
  | some c =>
    usage (some c) ++ "\npositional arguments:\n" ++ helpRow 14 2 c.operand c.operandHelp
      ++ "\noptions:\n" ++ switchRows 14 commandSwitches

end VideoExport.CommandLine
