import VideoExport.Proofs.Job.Parts

/-!
# The client of a job

Of all that takes part in a job only the probe of the source's length and whoever is told of the progress get
to the client, and the progress itself only changes where an engine's events are handled. All other parts
do what is `Untold`. How the probe and whoever is told change the client, a run of the job does, however it
ends (`Job.follows_run`).
-/

set_option autoImplicit false

namespace VideoExport

variable {σ κ α : Type}

namespace Job

variable {e : Engine σ} {probe : DurationProbe κ} {r : JobRequest} {s : Settings}
  {listener : Option (ProgressListener κ)}

/-- Whatever leaves the client and the progress of a job as they are changes it by `F`. -/
def Untold (F : Evolution (Job σ κ)) : Prop :=
  ∀ j k : Job σ κ, k.client = j.client → k.tracker = j.tracker → F j k

theorem untold_client (E : Evolution κ) : Untold (σ := σ) (E.on Job.client) :=
  fun j k client _ => by
    show E j.client k.client
    rw [client]
    exact E.refl _

/-! ## Parts that do not get to the client -/

section
variable {F : Evolution (Job σ κ)} (hF : Untold F)
include hF

/-- What the engine does is untold, whatever it is. -/
theorem Untold.frame (e : Engine σ) : Frame e (fun _ => True) .any F where
  engine := .any e _
  prepares _ _ := trivial
  host _ _ _ := trivial
  storage _ _ _ := hF _ _ rfl rfl
  aside _ _ _ _ := hF _ _ rfl rfl

theorem Untold.host (x : Action Host α) : (liftM x : Action (Job σ κ) α).Follows F :=
  .zoom (.any x) fun _ _ _ => hF _ _ rfl rfl

theorem Untold.enter (id : String) (state : JobState) :
    (enter id state : Action (Job σ κ) Unit).Follows F :=
  .bind (.read _) fun _ => .bind (hF.host _) fun _ => .modify fun _ => hF _ _ rfl rfl

theorem Untold.fail (id : String) (cause : Failure) :
    (fail id cause : Action (Job σ κ) α).Follows F :=
  .bind (hF.enter _ _) fun _ => .bind (.read _) fun _ => .bind (.read _) fun _ =>
    .bind (hF.host _) fun _ => .ite (.bind (hF.host _) fun _ => .raise _) (.raise _)

end

/-! ## Parts that do -/

section
variable {E : Evolution κ} (asked : ∀ path, (probe path).Follows (E.on Caller.client))
  (told : ∀ tell, listener = some tell → ∀ value, (tell value).Follows (E.on Caller.client))

theorem client_caller {x : Action (Caller κ) α} (h : x.Follows (E.on Caller.client)) :
    (liftM x : Action (Job σ κ) α).Follows (E.on Job.client) := .zoom h fun _ _ h => h

include told in
theorem client_tellProgress (value : Binary64) :
    (tellProgress listener value : Action (Job σ κ) Unit).Follows (E.on Job.client) := by
  cases hl : listener with
  | none => exact .pure _
  | some tell => exact client_caller (told tell hl value)

include told in
theorem client_render (id : String) (arguments : List String) :
    (render e id arguments listener : Action (Job σ κ) Unit).Follows (E.on Job.client) := by
  have hF := untold_client (σ := σ) E
  have frame := hF.frame e
  refine .bind (.read _) fun _ => frame.distrusting (Deadline.follows_relay _ _ (frame.start trivial)
    (fun _ _ _ h => frame.started (fun _ _ => trivial) h) fun ev => ?_)
  cases ev with
  | log message =>
    exact .bind (.read _) fun _ => .bind (.modify fun _ => E.refl _) fun _ =>
      .bind (hF.host _) fun _ => .pure _
  | progress report =>
    exact .bind (.read _) fun _ => .bind (.ofNumeric _) fun _ => .bind (.modify fun _ => E.refl _)
      fun _ => .bind (client_tellProgress told _) fun _ => .pure _
  | other _ => exact .pure _

include told in
theorem client_inStorage (d : Number) :
    (inStorage e r s d listener : Action (Job σ κ) ByteArray).Follows (E.on Job.client) := by
  have hF := untold_client (σ := σ) E
  have frame := hF.frame e
  have transcoded : (transcode e r s (imageOf r s) (namesOf r s) d listener :
      Action (Job σ κ) ByteArray).Follows (E.on Job.client) :=
    .bind (frame.stageFiles _ _ _) fun _ => .bind (hF.enter _ _) fun _ =>
      .bind (client_render told _ _) fun _ => .bind (hF.enter _ _) fun _ => frame.collect trivial
  exact .bind (hF.enter _ _) fun _ => .bind frame.unclaim fun _ =>
    .ensuring (.bind (frame.claimNames _) fun _ => transcoded) frame.release

include asked told in
/-- However a run ends: it changes the client as the probe and whoever is told of its progress do. -/
theorem follows_run : (run e probe r listener : Action (Job σ κ) JobResult).Follows
    (E.on Job.client) := by
  have hF := untold_client (σ := σ) E
  have frame := hF.frame e
  have performed (s : Settings) : (perform e probe r s listener : Action (Job σ κ) ByteArray).Follows
      (E.on Job.client) :=
    .bind (frame.ready fun path => client_caller (asked path)) fun _ =>
      .bind frame.prepareFont fun _ => client_inStorage told _
  refine .bind (.ofNumeric _) fun s => .bind (.read _) fun _ => .bind (.ofExcept _) fun _ =>
    .bind (.bind (.modify fun _ => E.refl _) fun _ => hF.host _) fun _ =>
      .bind (performed s).attempt fun o => ?_
  match o with
  | .error f => exact hF.fail _ _
  | .ok _ =>
    exact .bind (hF.enter _ _) fun _ => .bind (client_tellProgress told _) fun _ =>
      .bind (hF.host _) fun _ => .bind (.read _) fun _ => .pure _

end

end Job

end VideoExport
