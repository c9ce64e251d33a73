import VideoExport.Command
import VideoExport.Deadline
import VideoExport.Job.Basic

/-!
# Running a job

`Job.run` loads the engine if need be, puts the files into working storage, has the engine execute
the command, and writes what it made. Whatever fails on the way is reported as one failure of the
export, with its cause and the end of the engine's log; the entries that the job made in working
storage are removed in any case.
-/

set_option autoImplicit false

namespace VideoExport.Job

variable {σ κ : Type}

/-- The source of a job's records in the log. -/
def logSource : String := "JobRunner"

def note (level : Level) (message : String) : Action (Job σ κ) Unit :=
  Host.log level logSource message

/-- Changes what stays from one job to the next. -/
def updateRunner (f : Runner → Runner) : Action (Job σ κ) Unit :=
  .modify fun j => { j with runner := f j.runner }

def config : Action (Job σ κ) Config := .read fun j => j.runner.config

/-- Goes to a state, which the log shows. -/
def enter (id : String) (state : JobState) : Action (Job σ κ) Unit := do
  let before ← Action.read fun j : Job σ κ => j.runner.state
  note .debug s!"Job {id}: {before.name} -> {state.name}"
  updateRunner fun r => { r with state }

/-- Runs an operation of the engine; if it took too long, the engine is no longer trusted. -/
def distrusting {α : Type} (x : Action (Job σ κ) α) : Action (Job σ κ) α := do
  match ← x.attempt with
  | .ok a => return a
  | .error f =>
    if f.isTimeLimit then updateRunner fun r => { r with trusted := false }
    .raise f

/-- Resets an engine that is not trusted, if the configuration says so. -/
def renew (e : Engine σ) : Action (Job σ κ) Unit := do
  let j ← Action.get
  if !j.runner.trusted && j.runner.config.renewEngine then
    note .warning "Recriando engine após timeout anterior"
    e.reset
    updateRunner fun r => { r with fonts := r.fonts.forget, trusted := true }

/-- Loads the engine unless it is loaded. -/
def ensureLoaded (e : Engine σ) : Action (Job σ κ) Unit := do
  let j ← Action.get
  if e.isLoaded j.engine then return
  distrusting (Deadline.call (some j.runner.config.loadLimit) .load e.load)

/-- Loads the engine unless it is loaded. One that is not trusted is reset first, if the
configuration says so. -/
def ensureEngine (e : Engine σ) : Action (Job σ κ) Unit := do
  renew e
  ensureLoaded e

/-- The length of a source; zero if it is unknown. -/
def sourceDuration (probe : DurationProbe κ) (source : MediaFile) : Action (Job σ κ) Number := do
  let unknown : Number := .real (.zero false)
  match ← (liftM (probe source.path) : Action (Job σ κ) (Option Number)).attempt with
  | .ok none => return unknown
  | .ok (some n) => return if n.isZero then unknown else n
  | .error f =>
    note .warning s!"Duração desconhecida para {source.name}: {f.message}"
    return unknown

/-- Puts the font of the text watermark into working storage; whether it is there. -/
def ensureFont (e : Engine σ) (font : Option MediaFile) : Action (Job σ κ) Bool := do
  let j ← Action.get
  let (present, fonts) ← j.runner.fonts.ensure e font
  updateRunner fun r => { r with fonts }
  return present

/-- The content of a file that is to be staged under a name. -/
def contentFor (name : String) (m : MediaFile) : Action (Job σ κ) ByteArray := do
  match ← (liftM m.content : Action (Job σ κ) ByteArray).attempt with
  | .ok content => return content
  | .error f => if f.isSystem then .raise (.staging name f.message) else .raise f

/-- Tells of the progress of a job, if anyone listens. -/
def tellProgress (listener : Option (ProgressListener κ)) (value : Binary64) :
    Action (Job σ κ) Unit :=
  match listener with
  | some tell => tell value
  | none => pure ()

/-- Deals with an event of the engine: a line is kept, and progress is told. -/
def handle (id : String) (listener : Option (ProgressListener κ)) :
    EngineEvent → Action (Job σ κ) Deadline.Demand
  | .log message => do
    let limit := (← config).logBuffer
    .modify fun j => { j with log := keepLine limit j.log message }
    Host.log .debug s!"FFmpeg.{id}" message
    return .more
  | .progress report => do
    let tracker ← Action.read fun j : Job σ κ => j.tracker
    let tracker ← Action.ofNumeric (tracker.update report.number?)
    .modify fun j => { j with tracker }
    tellProgress listener tracker.value
    return .more
  | .other _ => return .more

/-- Starts a command of the engine as a part of the job. -/
def start (e : Engine σ) (arguments : List String) :
    Action (Job σ κ) (Execution (Job σ κ) EngineEvent) := do
  let x ← e.execute arguments
  return x.zoom (·.toWorld) fun j w => { j with toWorld := w }

/-- Has the engine execute a command within the limit. -/
def render (e : Engine σ) (id : String) (arguments : List String)
    (listener : Option (ProgressListener κ)) : Action (Job σ κ) Unit := do
  let limit := (← config).renderLimit
  distrusting (Deadline.relay (some limit) .render (start e arguments) (handle id listener))

/-- Reads the output and refuses one that is too small. -/
def readOutput (e : Engine σ) (name : String) : Action (Job σ κ) ByteArray := do
  let content ← e.read name
  if (Number.int content.size).lt (← config).minOutput then .raise (.emptyOutput content.size)
  return content

/-- Writes the output into its file, whose directory is made if need be. -/
def writeOutput (path : Path) (content : ByteArray) : Action (Job σ κ) Unit := do
  Host.ensureDirectory path.parent
  Host.writeFile path.toString content

/-- Stages a file under a name. -/
def stageFile (e : Engine σ) (name : String) (m : MediaFile) : Action (Job σ κ) Unit := do
  Storage.stage e name (← contentFor name m)

/-- Stages the image of a job, if it has one. -/
def stageImage (e : Engine σ) (image : Option MediaFile) (names : JobNames) :
    Action (Job σ κ) Unit :=
  match image, names.image with
  | some m, some name => stageFile e name m
  | _, _ => pure ()

/-- Stages the files of a job and gives the arguments of its command. -/
def stageFiles (e : Engine σ) (r : JobRequest) (s : Settings) (image : Option MediaFile)
    (names : JobNames) (duration : Number) : Action (Job σ κ) (List String) := do
  stageFile e names.input r.source
  stageImage e image names
  let now ← Action.ofExcept (← Action.get).host.currentTime
  Command.compile names.input names.output s
    { duration, timestamp := now, imageName := names.image }

/-- Reads the output and writes it into its file. -/
def collect (e : Engine σ) (r : JobRequest) (names : JobNames) : Action (Job σ κ) ByteArray := do
  let content ← readOutput e names.output
  writeOutput r.output content
  return content

/-- What is to be done once the names of a job are claimed: its files are staged, the command is
executed, and its output is written. -/
def transcode (e : Engine σ) (r : JobRequest) (s : Settings) (image : Option MediaFile)
    (names : JobNames) (duration : Number) (listener : Option (ProgressListener κ)) :
    Action (Job σ κ) ByteArray := do
  let arguments ← stageFiles e r s image names duration
  enter r.id .rendering
  render e r.id arguments listener
  enter r.id .readingOutput
  collect e r names

/-- Removes what is left under the names of a job and claims them. -/
def claimNames (e : Engine σ) (names : JobNames) : Action (Job σ κ) Unit := do
  Storage.purge e names.all
  Storage.claimAll (σ := σ) names.all

/-- All that is to be done in working storage. -/
def produce (e : Engine σ) (r : JobRequest) (s : Settings) (image : Option MediaFile)
    (names : JobNames) (duration : Number) (listener : Option (ProgressListener κ)) :
    Action (Job σ κ) ByteArray := do
  claimNames e names
  transcode e r s image names duration listener

/-- Makes the engine ready and finds the length of the source, if it matters. -/
def ready (e : Engine σ) (probe : DurationProbe κ) (r : JobRequest) (s : Settings) :
    Action (Job σ κ) Number := do
  ensureEngine e
  if s.fadeEnabled then sourceDuration probe r.source else pure (.real (.zero false))

/-- The image that a job puts over its video. -/
def imageOf (r : JobRequest) (s : Settings) : Option MediaFile :=
  if s.image.enabled then r.attachments.image else none

/-- The names of a job's entries in working storage. -/
def namesOf (r : JobRequest) (s : Settings) : JobNames := .ofJob r.id r.source (imageOf r s)

/-- The part of a job that leaves nothing in working storage. -/
def inStorage (e : Engine σ) (r : JobRequest) (s : Settings) (duration : Number)
    (listener : Option (ProgressListener κ)) : Action (Job σ κ) ByteArray := do
  enter r.id .staging
  .modify fun j => { j with claimed := [] }
  (produce e r s (imageOf r s) (namesOf r s) duration listener).ensuring (Storage.release e)

/-- Puts the font of a job into working storage if its video shows a text. -/
def prepareFont (e : Engine σ) (r : JobRequest) (s : Settings) : Action (Job σ κ) Unit := do
  if !s.text.content.isEmpty then
    let _ ← ensureFont e r.attachments.font

/-- All that may fail as an export: from loading the engine to writing the output. -/
def perform (e : Engine σ) (probe : DurationProbe κ) (r : JobRequest) (s : Settings)
    (listener : Option (ProgressListener κ)) : Action (Job σ κ) ByteArray := do
  let duration ← ready e probe r s
  prepareFont e r s
  inStorage e r s duration listener

/-- Reports a failure of the export. -/
def fail {α : Type} (id : String) (cause : Failure) : Action (Job σ κ) α := do
  enter id .error
  let count := (← config).logTail
  let tail ← Action.read fun j : Job σ κ => tailLines count j.log
  note .error s!"Exportação {id} falhou: {cause.message}"
  if !tail.isEmpty then
    note .error (s!"Logs do FFmpeg (fim) [{id}]:\n" ++ "\n".intercalate tail)
  .raise (.exportFailed cause tail)

/-- The largest length of a list. -/
def lengthLimit : Int := 9223372036854775807

/-- Refuses a length that no list can have. -/
def checkLength (length : Int) : Except Failure Unit :=
  if lengthLimit < length || length < -lengthLimit - 1 then .error .oversizedLength
  else if length < 0 then .error .negativeLength
  else .ok ()

/-- Starts the record of a job. -/
def begin (r : JobRequest) : Action (Job σ κ) Unit := do
  .modify fun j => { j with log := [], tracker := {} }
  note .info s!"Iniciando job {r.id}: {r.source.name}"

/-- Reports that a job is done. -/
def complete (r : JobRequest) (content : ByteArray) (listener : Option (ProgressListener κ)) :
    Action (Job σ κ) JobResult := do
  enter r.id .done
  tellProgress listener .one
  note .info s!"Job {r.id} concluído: {r.output} ({content.size} bytes)"
  let history ← Action.read fun j : Job σ κ => j.tracker.history
  return ⟨r.id, r.output, content.size, history⟩

/-- Runs a job. -/
def run (e : Engine σ) (probe : DurationProbe κ) (r : JobRequest)
    (listener : Option (ProgressListener κ)) : Action (Job σ κ) JobResult := do
  let s ← Action.ofNumeric (Settings.sanitize r.settings r.attachments.image.isSome)
  Action.ofExcept (((← config).logBuffer.mapM checkLength).map fun _ => ())
  begin r
  match ← (perform e probe r s listener).attempt with
  | .error cause => fail r.id cause
  | .ok content => complete r content listener

end VideoExport.Job
