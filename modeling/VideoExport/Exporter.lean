import VideoExport.Batch
import VideoExport.Engine.Local
import VideoExport.Settings.Change
import VideoExport.Size

/-!
# The exporter

An exporter owns an engine, the settings, the attached files and the queue. It exports single files
and batches with the current settings. Attaching an image turns its watermark on, and taking it away
turns it off; whatever is done, the settings are sanitized for whether an image is attached.
-/

set_option autoImplicit false

namespace VideoExport

/-- The state of an exporter, whose engine has states of type `σ` and whose client has states of
type `κ`. -/
structure Exporter (σ κ : Type) extends Job σ (Desk κ) where
  settings : Settings := .default
  attachments : Attachments := {}

variable {σ κ : Type}

instance : Hosted (Exporter σ κ) where
  host x := x.host
  withHost x host := { x with host }

instance : MonadLift (Action (Job σ (Desk κ))) (Action (Exporter σ κ)) where
  monadLift := Action.zoom (·.toJob) fun x toJob => { x with toJob }

/-- How videos are probed in a configuration. -/
def MediaProbe.ofConfig (c : Config) : MediaProbe where
  program := c.prober
  limit := some c.probeLimit

/-- Finds the length of a source by a probe. -/
def MediaProbe.length (p : MediaProbe) : DurationProbe κ := fun path => do
  return some (.real (← p.duration path.toString))

/-- The local engine of a configuration. -/
def LocalSetup.ofConfig (c : Config) : LocalSetup where
  encoder := c.encoder
  directory := c.workDirectory
  probe := some (.ofConfig c)
  loadLimit := some c.loadLimit

namespace Exporter

def logSource : String := "ExportService"

/-- A new exporter. -/
def ofConfig (host : Host) (engine : σ) (c : Config) (client : κ) : Exporter σ κ where
  host := host
  engine := engine
  runner := .ofConfig c
  client := { queue := { maxSize := some (.int c.maxInput) }, client }

def config : Action (Exporter σ κ) Config := .read fun x => x.runner.config

def hasImage : Action (Exporter σ κ) Bool := .read fun x => x.attachments.image.isSome

/-! ## Settings -/

def putSettings (settings : Settings) : Action (Exporter σ κ) Unit :=
  .modify fun x => { x with settings }

/-- Changes some settings. -/
def update (changes : Settings.Changes) : Action (Exporter σ κ) Unit := do
  Action.ofExcept (Settings.checkNames "ExportService.update_settings" ["self"] changes)
  let x ← Action.get
  putSettings (← Action.ofExcept (Settings.change x.settings.record changes (← hasImage)))

/-- Replaces the settings. -/
def setSettings (raw : Raw) : Action (Exporter σ κ) Unit := do
  putSettings (← Action.ofNumeric (Settings.sanitize raw (← hasImage)))

/-- Goes back to the default settings. -/
def resetSettings : Action (Exporter σ κ) Unit := putSettings .default

/-- Attaches an image, or takes the attached one away. -/
def attachImage (image : Option MediaFile) : Action (Exporter σ κ) Unit := do
  .modify fun x => { x with attachments := { x.attachments with image } }
  update [("watermark_image_enabled", .bool image.isSome)]

/-- Attaches a font, or takes the attached one away. -/
def attachFont (font : Option MediaFile) : Action (Exporter σ κ) Unit :=
  .modify fun x => { x with attachments := { x.attachments with font } }

/-! ## Exports -/

/-- The directory that outputs are written into. -/
def outputDirectory : Action (Exporter σ κ) Path := do
  return .ofString (← config).outputDirectory

/-- The size of a source. A source that cannot be read fails the export before it is a job. -/
def sourceSize (source : MediaFile) : Action (Exporter σ κ) Nat := do
  match ← (liftM source.size : Action (Exporter σ κ) Nat).attempt with
  | .ok size => return size
  | .error f =>
    if f.isSystem then
      Host.log .error logSource s!"Não foi possível ler {source.name}: {f.message}"
      .raise (.exportFailed (.staging source.name f.message) [])
    else .raise f

/-- The job that exports a file. A large file is exported with a warning. -/
def requestFor (path : Path) : Action (Exporter σ κ) JobRequest := do
  let source := MediaFile.ofPath path
  let size ← sourceSize source
  if (← config).maxInput < (size : Int) then
    let shown ← Action.ofExcept (Size.text (.int size) 2)
    Host.log .warning logSource
      s!"Arquivo {source.name} tem {shown}; o processamento pode falhar por falta de memória"
  let x ← Action.get
  return {
    id := ← Host.drawItemId
    source
    settings := .record x.settings.record
    output := (← outputDirectory).child s!"processed_{path.stem}.mp4"
    attachments := x.attachments }

/-- Finds the length of a source as the configuration says. -/
def probe (x : Exporter σ κ) : DurationProbe (Desk κ) :=
  (MediaProbe.ofConfig x.runner.config).length

/-- Exports a file. -/
def exportFile (e : Engine σ) (path : Path) (listener : Option (ProgressListener (Desk κ))) :
    Action (Exporter σ κ) JobResult := do
  let request ← requestFor path
  let x ← Action.get
  Job.run e x.probe request listener

/-- Adds files to the queue; the tickets of those that were added. -/
def enqueue (paths : List Path) : Action (Exporter σ κ) (List Nat) :=
  liftM (Batch.add (κ := κ) (paths.map Path.toString))

/-- Exports what is on the queue; the tickets of what was processed. -/
def runBatch (e : Engine σ) (listener : Option (ItemListener κ)) :
    Action (Exporter σ κ) (List Nat) := do
  let x ← Action.get
  Batch.render e x.probe (← outputDirectory) (.record x.settings.record) x.attachments listener

/-- Drops what the engine holds. -/
def close (e : Engine σ) : Action (Exporter σ κ) Unit := liftM e.reset

end Exporter

end VideoExport
