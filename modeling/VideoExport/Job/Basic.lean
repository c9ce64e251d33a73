import VideoExport.Config.Basic
import VideoExport.Fonts
import VideoExport.Job.State
import VideoExport.Settings.Sanitize
import VideoExport.Staging

/-!
# Jobs

A job exports one file. `Runner` is what stays from one job to the next: the state of the last job,
whether the engine can be trusted, and the font that is loaded. `Job` is the whole state during a
job; what is told about its progress goes to a client with a state of its own, of type `κ`.
-/

set_option autoImplicit false

namespace VideoExport

/-- What stays from one job to the next. -/
structure Runner where
  config : Config
  state : JobState := .idle
  /-- False after an operation of the engine took too long. -/
  trusted : Bool := true
  fonts : FontLoader

/-- A runner before its first job. -/
def Runner.ofConfig (c : Config) : Runner where
  config := c
  fonts := { path := c.fontPath, url := c.fontUrl, limit := c.fontLimit }

/-- The state during a job: the lines of the engine's log that are kept, and the progress so far. -/
structure Job (σ κ : Type) extends Storage σ where
  runner : Runner
  log : List String := []
  tracker : Progress.Tracker := {}
  client : κ

/-- A host and the state of a client. -/
structure Caller (κ : Type) where
  host : Host
  client : κ

variable {σ κ : Type}

instance : Hosted (Caller κ) where
  host c := c.host
  withHost c h := { c with host := h }

instance : Hosted (Job σ κ) where
  host j := j.host
  withHost j h := { j with host := h }

instance : MonadLift (Action (Storage σ)) (Action (Job σ κ)) where
  monadLift := Action.zoom (·.toStorage) fun j s => { j with toStorage := s }

instance : MonadLift (Action (Caller κ)) (Action (Job σ κ)) where
  monadLift := Action.zoom (fun j => ⟨j.host, j.client⟩) fun j c =>
    { j with host := c.host, client := c.client }

/-- How the length of a source is found. It may be unknown. -/
abbrev DurationProbe (κ : Type) := Path → Action (Caller κ) (Option Number)

/-- What is told about the progress of a job. -/
abbrev ProgressListener (κ : Type) := Binary64 → Action (Caller κ) Unit

/-- What a job is to do. -/
structure JobRequest where
  id : String
  source : MediaFile
  settings : Raw
  output : Path
  attachments : Attachments := {}

/-- What a job has done. -/
structure JobResult where
  id : String
  output : Path
  size : Nat
  history : List Binary64

/-- The last `count` lines; a count of zero takes all of them, and a negative one leaves out that
many first ones. -/
def tailLines (count : Int) (lines : List String) : List String :=
  if 0 < count then lines.drop (lines.length - count.toNat) else lines.drop count.natAbs

/-- Lines with one more, of which only the last `limit` are kept if there is a limit. -/
def keepLine (limit : Option Int) (lines : List String) (line : String) : List String :=
  let all := lines ++ [line]
  match limit with
  | none => all
  | some n => all.drop (all.length - n.toNat)

end VideoExport
