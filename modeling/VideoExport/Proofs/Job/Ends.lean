import VideoExport.Proofs.Job.Anatomy

/-!
# How a job ends

A run whose engine, probe and listener end comes to an end itself (`ends_run`): an operation of the
engine that stalls ends too if there is a time limit for it (`Engine.Responsive`). `run_reported` says
which of the two ends that a run should have it has, and in which two cases it has neither: a run that
is refused before it begins, and one whose listener fails when it is told of the end.

`Steady c P` collects what the phases of a run need of a property of its states to keep it; what is
told of the progress may change the rest.
-/

set_option autoImplicit false

namespace VideoExport

variable {σ κ : Type}

/-- All operations of an engine end, but loading need not if there is a limit for it, nor need an
execution. -/
structure Engine.Responsive (e : Engine σ) (c : Config) : Prop where
  write : ∀ name content, (e.write name content).Responds
  read : ∀ name, (e.read name).Responds
  delete : ∀ name, (e.delete name).Responds
  reset : e.reset.Responds
  load : e.load.Responds ∨ (Deadline.limit? (some c.loadLimit)).isSome = true
  execute : (∀ arguments, (e.execute arguments).Responds ∧
      ∀ x, e.Starts arguments x → x.finish.Responds) ∨
    (Deadline.limit? (some c.renderLimit)).isSome = true

theorem Command.responds_compile (inputName outputName : String) (s : Settings)
    (context : RenderContext) : (compile inputName outputName s context).Responds := by
  have logged (level : Level) (source message : String) :
      (Host.log level source message).Ends fun _ => True := .modify fun _ => id
  rw [Action.responds_iff]
  refine .bind (.bind (.ofNumeric _) fun _ => .bind (logged _ _ _) fun _ => .pure _)
    fun _ => .get_bind fun _ _ => .bind (.ofExcept _) fun _ => .bind (logged _ _ _)
      fun _ => .pure _

/-! ## Working storage -/

namespace Storage

variable {e : Engine σ}

theorem responds_claimAll : ∀ names : List String, (claimAll (σ := σ) names).Responds
  | [] => fun _ => nofun
  | name :: rest => by
    rw [Action.responds_iff]
    exact .bind (.modify fun _ => id) fun _ => Action.responds_iff.1 (responds_claimAll rest)

theorem ends_world {α : Type} {x : Action (World σ) α} (hx : x.Responds) :
    (liftM x : Action (Storage σ) α).Ends fun _ => True := .zoom hx fun _ _ _ => trivial

theorem responds_stage {name : String} {content : ByteArray} (hw : (e.write name content).Responds) :
    (stage e name content).Responds := by
  rw [Action.responds_iff]
  refine .bind (.modify fun _ => id) fun _ => .bind (ends_world hw).attempt fun o => ?_
  match o with
  | .ok () => exact .pure _
  | .error _ => exact .raise _

theorem responds_discardAll (hd : ∀ name, (e.delete name).Responds) :
    ∀ names : List String, (discardAll e names).Responds
  | [] => fun _ => nofun
  | name :: rest => by
    rw [Action.responds_iff]
    refine .bind (.bind (ends_world (hd name)).attempt fun o => ?_) fun _ =>
      Action.responds_iff.1 (responds_discardAll hd rest)
    match o with
    | .ok () => exact .pure _
    | .error _ =>
      refine .ite (.pure _) (.zoom (Host.responds_log _ _ _) fun _ _ _ => trivial)

theorem responds_release (hd : ∀ name, (e.delete name).Responds) : (release e).Responds := by
  rw [Action.responds_iff]
  exact .get_bind fun _ _ => .bind (Action.responds_iff.1 (responds_discardAll hd _)) fun _ =>
    .modify fun _ => id

end Storage

namespace Job

/-- `P` lasts through a run with the configuration `c`, except that telling of the progress might end
it: it does not depend on the host, the engine or the log, nor on what the runner keeps besides the
configuration. -/
structure Steady (c : Config) (P : Job σ κ → Prop) : Prop where
  config : ∀ {j}, P j → j.runner.config = c
  storage : ∀ {j} (s : Storage σ), P j → P { j with toStorage := s }
  runner : ∀ {j} (state : JobState) (trusted : Bool) (fonts : FontLoader), P j →
    P { j with runner := { j.runner with state, trusted, fonts } }
  log : ∀ {j} (log : List String), P j → P { j with log }

/-- The configuration lasts. -/
theorem steady_config (c : Config) : Steady c fun j : Job σ κ => j.runner.config = c where
  config := id
  storage _ := id
  runner _ _ _ := id
  log _ := id

section
variable {c : Config} {P : Job σ κ → Prop} {α : Type} {e : Engine σ} {r : JobRequest}
  {s : Settings} {d : Number} {probe : DurationProbe κ} {listener : Option (ProgressListener κ)}

theorem keeping_storage (hP : Steady c P) (x : Action (Storage σ) α) :
    (liftM x : Action (Job σ κ) α).Follows (.keeping P) :=
  .zoom (Action.Follows.any _) fun _ _ _ => hP.storage _

theorem ends_storage (hP : Steady c P) {x : Action (Storage σ) α} (hx : x.Responds) :
    (liftM x : Action (Job σ κ) α).Ends P := .zoom hx fun _ _ => hP.storage _

theorem ends_world (hP : Steady c P) {x : Action (World σ) α} (hx : x.Responds) :
    (liftM x : Action (Job σ κ) α).Ends P :=
  ends_storage hP (Action.responds_iff.2 (Storage.ends_world hx))

theorem ends_host (hP : Steady c P) {x : Action Host α} (hx : x.Responds) :
    (liftM x : Action (Job σ κ) α).Ends P := .zoom hx fun _ _ h => hP.storage _ h

theorem ends_note (hP : Steady c P) (level : Level) (message : String) :
    (note level message : Action (Job σ κ) Unit).Ends P := ends_host hP (Host.responds_log _ _ _)

theorem ends_enter (hP : Steady c P) (id : String) (state : JobState) :
    (enter id state : Action (Job σ κ) Unit).Ends P :=
  .bind (.read _) fun _ => .bind (ends_note hP _ _) fun _ => .modify fun _ => hP.runner _ _ _

theorem ends_distrusting (hP : Steady c P) {x : Action (Job σ κ) α} (hx : x.Ends P) :
    (distrusting x).Ends P := by
  refine .bind hx.attempt fun o => ?_
  match o with
  | .ok _ => exact .pure _
  | .error f => exact .ite (.bind (.modify fun _ => hP.runner _ _ _) fun _ => .raise f) (.raise f)

theorem ends_noteAbandoned (hP : Steady c P) (limit : Number) :
    (Deadline.noteAbandoned limit : Action (Job σ κ) Unit).Ends P :=
  ends_host hP (Host.responds_log _ _ _)

/-! ## The phases of a run end -/

theorem ends_ensureEngine (hP : Steady c P) (he : e.Responsive c) :
    (ensureEngine e : Action (Job σ κ) Unit).Ends P := by
  have renewed : (renew e : Action (Job σ κ) Unit).Ends P :=
    .get_bind fun _ _ => .ite (.bind (ends_note hP _ _) fun _ =>
      .bind (ends_world hP he.reset) fun _ => .modify fun _ => hP.runner _ _ _) (.pure _)
  have loaded : (ensureLoaded e : Action (Job σ κ) Unit).Ends P := by
    refine .get_bind fun j hj => .ite (.pure _) (ends_distrusting hP ?_)
    rw [hP.config hj]
    exact Deadline.ends_call (keeping_storage hP _) (he.load.imp_left (ends_world hP))
      (ends_noteAbandoned hP)
  exact .bind renewed fun _ => loaded

theorem ends_ready (hP : Steady c P) (he : e.Responsive c)
    (hp : (liftM (probe r.source.path) : Action (Job σ κ) (Option Number)).Ends P) :
    (ready e probe r s : Action (Job σ κ) Number).Ends P := by
  refine .bind (ends_ensureEngine hP he) fun _ => .ite (.bind hp.attempt fun o => ?_) (.pure _)
  match o with
  | .ok none => exact .pure _
  | .ok (some _) => exact .pure _
  | .error _ => exact .bind (ends_note hP _ _) fun _ => .pure _

theorem ends_prepareFont (hP : Steady c P) (he : e.Responsive c) :
    (prepareFont e r s : Action (Job σ κ) Unit).Ends P :=
  .ite (.bind (.get_bind fun _ _ =>
    .bind (ends_world hP (FontLoader.responds_ensure _ _ (he.write fontEntry))) fun _ =>
      .bind (.modify fun _ => hP.runner _ _ _) fun _ => .pure _) fun _ => .pure _) (.pure _)

theorem ends_stageFile (hP : Steady c P) (he : e.Responsive c) (name : String) (m : MediaFile) :
    (stageFile e name m : Action (Job σ κ) Unit).Ends P := by
  refine .bind (.bind (ends_host hP (Host.responds_readFile _)).attempt fun o => ?_) fun content =>
    ends_storage hP (Storage.responds_stage (he.write name content))
  match o with
  | .ok _ => exact .pure _
  | .error _ => exact .ite (.raise _) (.raise _)

theorem ends_stageFiles (hP : Steady c P) (he : e.Responsive c) (image : Option MediaFile)
    (names : JobNames) : (stageFiles e r s image names d : Action (Job σ κ) _).Ends P := by
  refine .bind (ends_stageFile hP he _ _) fun _ => .bind ?_ fun _ => .get_bind fun _ _ =>
    .bind (.ofExcept _) fun _ => ends_host hP (Command.responds_compile _ _ _ _)
  unfold stageImage
  split
  · exact ends_stageFile hP he _ _
  · exact .pure _

theorem follows_start (hP : Steady c P) (arguments : List String) :
    (start e arguments : Action (Job σ κ) _).Follows (.keeping P) :=
  .bind (keeping_storage hP _) fun _ => .pure _

/-- What the engine does while it executes a command lasts. -/
theorem started_follows (hP : Steady c P) {arguments : List String} {j k : Job σ κ}
    {x : Execution (Job σ κ) EngineEvent} (h : (start e arguments).run j = (.returned x, k)) :
    x.Follows (.keeping P) := by
  obtain ⟨y, i, -, hx⟩ := Action.bind_returned h
  cases hx
  refine ⟨fun m hm _ => ?_, fun m hm _ => ?_,
    .zoom (Action.Follows.any _) fun _ _ _ => hP.storage _⟩
  · obtain ⟨n, -, rfl⟩ := List.mem_map.1 hm
    exact hP.storage _
  · obtain ⟨n, -, rfl⟩ := List.mem_map.1 hm
    exact hP.storage _

theorem ends_started (hP : Steady c P) {arguments : List String}
    (he : ∀ x, e.Starts arguments x → x.finish.Responds) {j k : Job σ κ}
    {x : Execution (Job σ κ) EngineEvent} (h : (start e arguments).run j = (.returned x, k)) :
    x.finish.Ends P := by
  obtain ⟨y, i, hy, hx⟩ := Action.bind_returned h
  cases hx
  obtain ⟨w, hy, -⟩ := world_eq hy
  exact .zoom (he y ⟨_, w, hy⟩) fun _ _ => hP.storage _

theorem ends_render (hP : Steady c P) (he : e.Responsive c) {id : String} {arguments : List String}
    (hh : ∀ ev, (handle id listener ev : Action (Job σ κ) Deadline.Demand).Ends P) :
    (render e id arguments listener : Action (Job σ κ) Unit).Ends P := by
  have limited (limit : Number) (hl : limit = c.renderLimit) : (Deadline.relay (some limit) .render
      (start e arguments) (handle id listener) : Action (Job σ κ) Unit).Ends P := by
    subst hl
    refine Deadline.ends_relay (follows_start hP _) (fun _ _ _ => started_follows hP) ?_ hh
    refine he.execute.imp_left fun ends => ⟨?_, fun _ _ _ => ends_started hP (ends arguments).2⟩
    exact .bind (ends_world hP (ends arguments).1) fun _ => .pure _
  intro j hj
  exact ends_distrusting hP (limited _ (congrArg Config.renderLimit (hP.config hj))) j hj

theorem ends_collect (hP : Steady c P) (he : e.Responsive c) (names : JobNames) :
    (collect e r names : Action (Job σ κ) ByteArray).Ends P := by
  refine .bind (.bind (ends_world hP (he.read _)) fun _ => .bind (.read _) fun _ => ?_) fun _ =>
    .bind (.bind (ends_host hP (Host.responds_ensureDirectory _)) fun _ =>
      ends_host hP (Host.responds_writeFile _ _)) fun _ => .pure _
  dsimp only
  split
  · exact .bind (.raise _) fun _ => .pure _
  · exact .pure _

theorem ends_inStorage (hP : Steady c P) (he : e.Responsive c)
    (hh : ∀ ev, (handle r.id listener ev : Action (Job σ κ) Deadline.Demand).Ends P) :
    (inStorage e r s d listener : Action (Job σ κ) ByteArray).Ends P := by
  have claimed : (claimNames e (namesOf r s) : Action (Job σ κ) Unit).Ends P :=
    .bind (ends_storage hP (Storage.responds_discardAll he.delete _)) fun _ =>
      ends_storage hP (Storage.responds_claimAll _)
  have transcoded : (transcode e r s (imageOf r s) (namesOf r s) d listener :
      Action (Job σ κ) ByteArray).Ends P :=
    .bind (ends_stageFiles hP he _ _) fun _ => .bind (ends_enter hP _ _) fun _ =>
      .bind (ends_render hP he hh) fun _ => .bind (ends_enter hP _ _) fun _ =>
        ends_collect hP he _
  exact .bind (ends_enter hP _ _) fun _ => .bind (.modify fun _ => hP.storage _) fun _ =>
    .ensuring (.bind claimed fun _ => transcoded)
      (ends_storage hP (Storage.responds_release he.delete))

/-- The work of a run ends, and what is steady lasts, if nothing but time limits can keep its engine
from ending and if probing the source and handling events end likewise. -/
theorem ends_perform (hP : Steady c P) (he : e.Responsive c)
    (hp : (liftM (probe r.source.path) : Action (Job σ κ) (Option Number)).Ends P)
    (hh : ∀ ev, (handle r.id listener ev : Action (Job σ κ) Deadline.Demand).Ends P) :
    (perform e probe r s listener : Action (Job σ κ) ByteArray).Ends P :=
  .bind (ends_ready hP he hp) fun _ => .bind (ends_prepareFont hP he) fun _ =>
    ends_inStorage hP he hh

theorem ends_fail (hP : Steady c P) (id : String) (cause : Failure) :
    (fail id cause : Action (Job σ κ) α).Ends P :=
  .bind (ends_enter hP _ _) fun _ => .bind (.read _) fun _ => .bind (.read _) fun _ =>
    .bind (ends_note hP _ _) fun _ => .ite (.bind (ends_note hP _ _) fun _ => .raise _) (.raise _)

/-- An event that tells no progress changes the log at most. -/
theorem ends_handle (hP : Steady c P) {id : String}
    (hh : ∀ report, (handle id listener (.progress report) :
      Action (Job σ κ) Deadline.Demand).Ends P) :
    ∀ ev, (handle id listener ev : Action (Job σ κ) Deadline.Demand).Ends P
  | .log _ => .bind (.read _) fun _ => .bind (.modify fun _ => hP.log _) fun _ =>
      .bind (ends_host hP (Host.responds_log _ _ _)) fun _ => .pure _
  | .progress report => hh report
  | .other _ => .pure _

end

end Job

end VideoExport
