import VideoExport.CommandLine.Help
import VideoExport.Config.Load
import VideoExport.Exporter
import VideoExport.Settings.Document

/-!
# Running the program

`CommandLine.run` does what the command line asks for and gives the exit code: zero if everything
was exported. The log goes into a file, and its warnings and errors to the console too.
-/

set_option autoImplicit false

namespace VideoExport.CommandLine

/-- The exporter that the program works with. -/
abbrev Session := Exporter LocalEngine Unit

/-- Works with an exporter of a configuration. -/
def withExporter {α : Type} (c : Config) (x : Action Session α) : Action Host α :=
  .zoom (fun h => Exporter.ofConfig h { setup := .ofConfig c } c ()) (fun _ x => x.host) x

/-! ## Preparation -/

/-- A value that is given and not empty. -/
def given (value : Option String) : Option String := value.filter (!·.isEmpty)

/-- The configuration that the options ask for. -/
def configuration (o : Options) : Action Host Config := do
  let c ← Config.load ((given o.config).map Path.ofString)
  return match given o.outputDirectory with
    | some directory => { c with outputDirectory := directory }
    | none => c

/-- Attaches the files and reads the settings that the options name. -/
def prepare (o : Options) : Action Session Unit := do
  match given o.image with
  | some path => Exporter.attachImage (some (.ofString path))
  | none => pure ()
  match given o.font with
  | some path => Exporter.attachFont (some (.ofString path))
  | none => pure ()
  match given o.settings with
  | some path =>
    let document ← (Host.readText (Path.ofString path).toString .utf8 : Action Host String)
    let settings ← Action.ofExcept (Settings.read (.text document) (← Exporter.hasImage))
    Exporter.setSettings (.record settings.record)
  | none => pure ()

/-! ## Tasks -/

def say (text : String) : Action Session Unit := Host.print text

def complain (text : String) : Action Session Unit := Host.printError text

/-- A fraction in percent. -/
def percentText (n : Number) : String :=
  match n.mul 100 >>= Number.toReal with
  | .ok x =>
    let digits := x.fixed 1
    blanks (5 - digits.length) ++ digits ++ "%"
  | .error _ => ""

/-- Shows the progress of an export, in place of what was shown before. -/
def showProgress : ProgressListener (Desk Unit) := fun value =>
  Host.print ("\r" ++ percentText (.real value))

/-- Exports one video. -/
def exportSingle (video : String) : Action Session Nat := do
  let x := Exporter.exportFile LocalEngine.engine (.ofString video) (some showProgress)
  match ← x.attempt with
  | .ok r =>
    say "\n"
    let size ← Action.ofExcept (Size.text (.int r.size) 2)
    say s!"✅ {r.output} ({size})\n"
    return 0
  | .error (.exportFailed cause tail) =>
    say "\n"
    complain s!"❌ {(Failure.exportFailed cause tail).message}\n"
    if !tail.isEmpty then complain ("Logs do FFmpeg (fim):\n" ++ "\n".intercalate tail ++ "\n")
    return 1
  | .error f => .raise f

/-- The line that tells what became of an item. -/
def itemLine (item : QueueItem) : String :=
  let status := item.status.name
  let label := s!"[{blanks (10 - status.length)}{status}]"
  let line := s!"{label} {item.source.name} {percentText item.progress}"
  match given item.message with
  | some message => s!"{line}: {message}\n"
  | none => line ++ "\n"

/-- The exit code for the items of a batch. -/
def batchCode (items : List QueueItem) : Nat :=
  if items.any fun item => (given item.message).isSome then 1 else 0

/-- Exports several videos. -/
def exportSeveral (videos : List String) : Action Session Nat := do
  let added ← Exporter.enqueue (videos.map Path.ofString)
  let q ← Action.read fun x : Session => x.client.queue
  q.skipped.forM fun path => say s!"⚠️  Ignorado (ilegível ou maior que o limite): {path}\n"
  if added.isEmpty then
    say "Nenhum vídeo na fila\n"
    return 1
  let tickets ← Exporter.runBatch LocalEngine.engine none
  let q ← Action.read fun x : Session => x.client.queue
  let items := q.ofTickets tickets
  (items.filter fun item => item.status.isTerminal).forM fun item => say (itemLine item)
  return batchCode items

def perform : Task → Action Session Nat
  | .single video => exportSingle video
  | .several videos => exportSeveral videos

/-- Does what a request asks for. -/
def fulfil (r : Request) : Action Host Nat := do
  let c ← configuration r.options
  withExporter c do
    prepare r.options
    (perform r.task).ensuring (Exporter.close LocalEngine.engine)

/-! ## The program -/

/-- The gravity from which on records go into the log file. -/
def Options.logLevel (o : Options) : Level := if o.debug then .debug else .info

/-- Opens the log file, which keeps what it held. -/
def openLog (path : String) : Action Host Unit := do
  Host.ensureDirectory (Path.ofString path).parent
  Host.appendFile path ""

/-- Writes the records into the log file. -/
def writeLog (path : String) (threshold : Level) : Action Host Unit := do
  let h ← Action.get
  let _ ← (Host.appendFile path (h.journal.fileText threshold h.now)).attempt

/-- Tells the user a notice; the exit code. -/
def tell : Notice → Action Host Nat
  | .help command => do
    Host.print (help command)
    return 0
  | .complaint command c => do
    Host.printError (usage command ++ s!"{title command}: error: {c.message}\n")
    return 2

/-- Runs the program on its arguments; the exit code. -/
def run (arguments : List String) : Action Host Nat := do
  match read arguments with
  | .error notice => tell notice
  | .ok r =>
    match given (some r.options.logFile) with
    | none => fulfil r
    | some path =>
      openLog path
      (fulfil r).ensuring (writeLog path r.options.logLevel)

end VideoExport.CommandLine
