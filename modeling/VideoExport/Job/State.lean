import VideoExport.Failure

/-!
# States of a job

The states that a job goes through. `JobState.Step` says which state may follow which.
-/

set_option autoImplicit false

namespace VideoExport

/-- Where a job stands. -/
inductive JobState where
  | idle
  | staging
  | rendering
  | readingOutput
  | done
  | error
  deriving DecidableEq, Repr

namespace JobState

def name : JobState → String
  | .idle => "idle"
  | .staging => "staging"
  | .rendering => "rendering"
  | .readingOutput => "reading-output"
  | .done => "done"
  | .error => "error"

def all : List JobState := [.idle, .staging, .rendering, .readingOutput, .done, .error]

/-- Which state may follow which: a job starts from rest, goes through its stages in order, and can
fail from any state but the first. -/
inductive Step : JobState → JobState → Prop
  | start {before : JobState} (rest : before = .idle ∨ before = .done ∨ before = .error) :
      Step before .staging
  | render : Step .staging .rendering
  | read : Step .rendering .readingOutput
  | finish : Step .readingOutput .done
  | fail {before : JobState} (begun : before ≠ .idle) : Step before .error

/-- The state that a value names. -/
def ofValue (v : Value) : Except Failure JobState :=
  match all.find? fun state => v.isText state.name with
  | some state => .ok state
  | none => .error (.notChoice v "JobState")

end JobState

end VideoExport
