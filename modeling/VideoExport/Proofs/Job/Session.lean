import VideoExport.Job.Run
import VideoExport.Proofs.Engine.Recording

/-!
# Jobs one after another

`Session e Q`: jobs that run one after another on one runner and one engine, each of them such that
`Q` holds of its end and of the states before and after it. Between two jobs the engine may go on by
itself with what was abandoned, as long as that does not load it.
-/

set_option autoImplicit false

namespace VideoExport.Job

variable {σ κ : Type}

/-- Jobs that run one after another. -/
inductive Session (e : Engine σ)
    (Q : Outcome JobResult → Job (Recorded σ) κ → Job (Recorded σ) κ → Prop)
    (j : Job (Recorded σ) κ) : Job (Recorded σ) κ → Prop
  | start : Session e Q j j
  /-- Time passes between two jobs. -/
  | pause {k l : Job (Recorded σ) κ} (before : Session e Q j k)
      (steps : l.engine.steps = k.engine.steps) (runner : l.runner = k.runner)
      (loaded : e.isLoaded l.engine.engine = true → e.isLoaded k.engine.engine = true) :
      Session e Q j l
  /-- A job runs. -/
  | run {k l : Job (Recorded σ) κ} {probe : DurationProbe κ} {r : JobRequest}
      {listener : Option (ProgressListener κ)} {o : Outcome JobResult} (before : Session e Q j k)
      (ran : (Job.run e.recorded probe r listener).run k = (o, l)) (ends : o ≠ .stalled)
      (holds : Q o k l) : Session e Q j l

end VideoExport.Job
