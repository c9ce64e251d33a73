import VideoExport.Engine.Basic
import VideoExport.Media.Probe

/-!
# The local engine

An engine that starts a program of this machine. Its working storage is a directory, in which the
program runs, so that the names of entries are paths for it. The program tells its progress on its
output, line by line, and its log on its error stream.
-/

set_option autoImplicit false

namespace VideoExport

/-- How a local engine is set up. -/
structure LocalSetup where
  encoder : Option String := none
  /-- The directory to work in; without one a temporary directory is made at each load. -/
  directory : Option String := none
  probe : Option MediaProbe := none
  loadLimit : Option Number := some (.decimal 600 1)

/-- The state of a local engine. -/
structure LocalEngine where
  setup : LocalSetup
  directory : Option Path := none
  /-- Whether the directory is a temporary one. -/
  ownsDirectory : Bool := false
  loaded : Bool := false
  /-- The number of the program that is running. -/
  process : Option Nat := none

namespace LocalEngine

/-- The source of the engine's records in the log. -/
def logSource : String := "LocalFFmpegEngine"

def log (level : Level) (message : String) : Action (World LocalEngine) Unit :=
  Host.log level logSource message

/-- Changes the state of the engine. -/
def update (f : LocalEngine → LocalEngine) : Action (World LocalEngine) Unit :=
  .modify fun w => { w with engine := f w.engine }

/-- The path of the program. -/
def binary : Action (World LocalEngine) String :=
  .read fun w => w.host.resolveProgram w.engine.setup.encoder "ffmpeg"

/-- The directory that was asked for. -/
def requestedDirectory (e : LocalEngine) : Option String :=
  e.setup.directory.filter (!·.isEmpty)

/-- Sets the directory to work in and makes it. -/
def prepareDirectory : Action (World LocalEngine) Unit := do
  let w ← Action.get
  match w.engine.requestedDirectory with
  | some text =>
    let path := Path.ofString text
    update fun e => { e with directory := some path }
    Host.ensureDirectory path
    update fun e => { e with ownsDirectory := false }
  | none =>
    let path ← Host.makeTemporary
    update fun e => { e with directory := some path, ownsDirectory := true }

/-- Checks that the program runs, and prepares the directory. -/
def load : Action (World LocalEngine) Unit := do
  let w ← Action.get
  if w.engine.loaded then return
  let program ← binary
  log .info s!"Carregando FFmpeg: {program}"
  let _ ← Host.runVersion [program, "-hide_banner", "-version"] w.engine.setup.loadLimit
  prepareDirectory
  update fun e => { e with loaded := true }

/-! ## Storage -/

/-- Whether a text is the name of an entry: a single component of a path. -/
def isEntryName (name : String) : Bool := !name.isEmpty && (Path.ofString name).name = name

/-- The path of an entry. -/
def entryPath (name : String) : Action (World LocalEngine) String := do
  let w ← Action.get
  match w.engine.directory with
  | none => .raise .notLoaded
  | some directory =>
    if isEntryName name then return (directory.child name).toString else .raise (.invalidName name)

def write (name : String) (content : ByteArray) : Action (World LocalEngine) Unit := do
  Host.writeFile (← entryPath name) content

def read (name : String) : Action (World LocalEngine) ByteArray := do
  Host.readFile (← entryPath name)

def delete (name : String) : Action (World LocalEngine) Unit := do
  Host.unlink (← entryPath name)

/-- Whether there is an entry. -/
def hasEntry (name : String) : Action (World LocalEngine) Bool := do
  Host.pathExists (← entryPath name)

/-! ## Execution -/

/-- The length of a command's input, which its progress refers to; zero if it is unknown. -/
def inputDuration (arguments : List String) : Action (World LocalEngine) Number := do
  let w ← Action.get
  match w.engine.setup.probe with
  | none => return .real (.zero false)
  | some probe =>
    if arguments.contains "-i" then
      match (arguments.dropWhile (· ≠ "-i"))[1]? with
      | none => .raise .outOfRange
      | some name =>
        let path ← entryPath name
        return .real (← probe.duration path)
    else return .real (.zero false)

/-- A line without the line breaks at its end. -/
def withoutBreak (line : String) : String :=
  String.ofList ((line.toList.reverse.dropWhile (· = '\n')).reverse)

/-- The number of lines of the error stream that are kept, and how many of them a failure shows. -/
def keptLines : Nat := 200

def shownLines : Nat := 50

/-- The last lines. -/
def lastLines (count : Nat) (lines : List String) : List String := lines.drop (lines.length - count)

/-- What is left of a running program's lines, and what has been seen of its error stream. -/
structure Reading where
  /-- Lines of the error stream that wait to be passed on. -/
  waiting : List String := []
  /-- Lines of the error stream that were passed on. -/
  passed : List String := []

/-- Notes the end of the program. -/
def forgetProcess (w : World LocalEngine) : World LocalEngine :=
  { w with engine := { w.engine with process := none } }

/-- Kills the program. -/
def killProcess (number : Nat) (w : World LocalEngine) : World LocalEngine :=
  { w with host := w.host.markKilled number, engine := { w.engine with process := none } }

/-- Lines of the error stream as events; closing an execution does `close`. -/
def logEvents (close : World LocalEngine → World LocalEngine) (lines : List String) :
    List (Emission (World LocalEngine) EngineEvent) :=
  lines.map fun line => { event := .log line, close }

/-- Writes the file that the program's last argument names in its directory. -/
def writeOutput (p : Host.Process) (w : World LocalEngine) : World LocalEngine :=
  match p.script.written, p.command.getLast? with
  | some size, some name =>
    let content : ByteArray := ⟨Array.replicate size 0⟩
    let path := (Path.ofString p.directory).child name
    match w.host.files.write path.toString content with
    | .ok files => { w with host := { w.host with files } }
    | .error _ => w
  | _, _ => w

/-- The end of a program: its code tells whether it succeeded. -/
def conclude (p : Host.Process) (lines : List String) : Action (World LocalEngine) Unit := do
  .modify forgetProcess
  if p.script.code = 0 then log .info "Comando FFmpeg finalizado com sucesso."
  else
    log .error s!"Comando FFmpeg retornou código {p.script.code}"
    let kept := lastLines keptLines lines
    .raise (.execution (some p.script.code) ("\n".intercalate (lastLines shownLines kept)))

/-- The execution of what is left of a program. Lines of the error stream are passed on before the
next line of the output and at the end. -/
def transcript (p : Host.Process) (duration : Number) :
    Reading → List ProcessStep → Execution (World LocalEngine) EngineEvent
  | r, [] =>
    Execution.after (writeOutput p) {
      emissions := logEvents forgetProcess r.waiting
      finish := conclude p (r.passed ++ r.waiting) }
  | _, .hang :: _ => ⟨[], .stall⟩
  | r, .error line :: rest =>
    transcript p duration { r with waiting := r.waiting ++ [withoutBreak line] } rest
  | r, .output line :: rest =>
    let logs := logEvents (killProcess p.number) r.waiting
    match Progress.parseLine (String.ofList (Text.strip line.toList)) duration with
    | .error e => ⟨logs, do .modify (killProcess p.number); .raise (.numeric e)⟩
    | .ok report =>
      let progress := report.toList.map fun report =>
        { event := .progress report, close := killProcess p.number }
      (transcript p duration { waiting := [], passed := r.passed ++ r.waiting } rest).prepend
        (logs ++ progress)

/-- Starts the program on a command. -/
def execute (arguments : List String) :
    Action (World LocalEngine) (Execution (World LocalEngine) EngineEvent) := do
  let program ← binary
  let command := [program, "-y", "-hide_banner", "-nostdin", "-progress", "pipe:1"] ++ arguments
  log .info ("Executando comando FFmpeg: " ++ " ".intercalate command)
  let duration ← inputDuration arguments
  let w ← Action.get
  let directory := (w.engine.directory.map Path.toString).getD "None"
  let p ← Host.start command directory
  update fun e => { e with process := some p.number }
  return transcript p duration {} p.script.steps

/-- Ends a program that is still running, and drops the directory if it is a temporary one. -/
def reset : Action (World LocalEngine) Unit := do
  let w ← Action.get
  match w.engine.process with
  | some number =>
    log .warning "Encerrando processo FFmpeg abandonado"
    .modify (killProcess number)
  | none => pure ()
  match w.engine.directory with
  | some directory => if w.engine.ownsDirectory then Host.removeTree directory
  | none => pure ()
  update fun e => { e with directory := none, loaded := false }

/-- The operations of the local engine. -/
def engine : Engine LocalEngine where
  isLoaded := (·.loaded)
  load := load
  write := write
  read := read
  delete := delete
  execute := execute
  reset := reset

end LocalEngine

end VideoExport
