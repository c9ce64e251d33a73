import VideoExport.Job.Run
import VideoExport.Proofs.Engine.Simulation

/-!
# Jobs on engines that mirror each other

A job on an engine that mirrors another mirrors a job on that other one, from its first action to its end
(`simulates_run`): what its engine emits may differ as far as the job does not tell the events apart, and
its progress as far as nobody is told of it. So a record of the engine's steps changes nothing about a job
(`run_unrecorded`): what is proved of jobs with a record holds of jobs without it.
-/

set_option autoImplicit false

namespace VideoExport

variable {σ σ' κ α β : Type} {W : World σ → World σ' → Prop} {E : EngineEvent → EngineEvent → Prop}
  {T : Progress.Tracker → Progress.Tracker → Prop} {R : α → β → Prop} {e : Engine σ} {e' : Engine σ'}

/-- The same entries are claimed in related worlds. -/
structure Storage.Alike (W : World σ → World σ' → Prop) (s : Storage σ) (t : Storage σ') : Prop where
  world : W s.toWorld t.toWorld
  claimed : s.claimed = t.claimed

/-- The worlds of two states of a job are related by `W`, and its progress by `T`; all else is the same. -/
structure Job.Alike (W : World σ → World σ' → Prop) (T : Progress.Tracker → Progress.Tracker → Prop)
    (j : Job σ κ) (k : Job σ' κ) : Prop where
  storage : Storage.Alike W j.toStorage k.toStorage
  runner : j.runner = k.runner
  log : j.log = k.log
  tracker : T j.tracker k.tracker
  client : j.client = k.client

namespace Job

/-! ## Parts of a state -/

theorem simulates_storage {x : Action (Storage σ) α} {y : Action (Storage σ') β}
    (h : x.Simulates (Storage.Alike W) R y) :
    (liftM x : Action (Job σ κ) α).Simulates (Alike W T) R (liftM y) :=
  .zoom h (fun _ _ hj => hj.storage) fun _ _ _ _ hj hs => { hj with storage := hs }

theorem simulates_stored {x : Action (World σ) α} {y : Action (World σ') β} (h : x.Simulates W R y) :
    (liftM x : Action (Storage σ) α).Simulates (Storage.Alike W) R (liftM y) :=
  .zoom h (fun _ _ hs => hs.world) fun _ _ _ _ hs hw => { hs with world := hw }

theorem simulates_world {x : Action (World σ) α} {y : Action (World σ') β} (h : x.Simulates W R y) :
    (liftM x : Action (Job σ κ) α).Simulates (Alike W T) R (liftM y) :=
  simulates_storage (simulates_stored h)

theorem mirrors_updateRunner (g : Runner → Runner) :
    (updateRunner g : Action (Job σ κ) Unit).Mirrors (Alike W T) (updateRunner g) :=
  .modify fun _ _ hj => { hj with runner := congrArg g hj.runner }

theorem mirrors_config :
    (config : Action (Job σ κ) Config).Mirrors (Alike W T) config :=
  .read fun _ _ hj => congrArg Runner.config hj.runner

theorem mirrors_distrusting {x : Action (Job σ κ) α} {y : Action (Job σ' κ) α}
    (h : x.Mirrors (Alike W T) y) : (distrusting x).Mirrors (Alike W T) (distrusting y) := by
  refine .bind h.attempt fun o => ?_
  match o with
  | .ok a => exact .pure a
  | .error g => exact .ite (.bind (mirrors_updateRunner _) fun _ => .raise g) (.raise g)

/-! ## Working storage -/

theorem mirrors_claim (name : String) :
    (Storage.claim name : Action (Storage σ) Unit).Mirrors (Storage.Alike W) (Storage.claim name) := by
  refine .modify fun s t hs => ?_
  rw [hs.claimed]
  split
  · exact hs
  · exact { hs with claimed := rfl }

theorem mirrors_claimAll : ∀ names : List String,
    (Storage.claimAll names : Action (Storage σ) Unit).Mirrors (Storage.Alike W)
      (Storage.claimAll names)
  | [] => .pure _
  | _ :: rest => .bind (mirrors_claim _) fun _ => mirrors_claimAll rest

theorem mirrors_stage (h : Engine.Mirrors W E e e') (name : String) (content : ByteArray) :
    (Storage.stage e name content).Mirrors (Storage.Alike W) (Storage.stage e' name content) := by
  refine .bind (mirrors_claim _) fun _ =>
    .bind (Action.Mirrors.attempt (simulates_stored (h.write _ _))) fun o => ?_
  match o with
  | .ok () => exact .pure _
  | .error _ => exact .raise _

/-! ## On the same host -/

section
variable (hW : World.Alike W)
include hW

theorem mirrors_host (x : Action Host α) :
    (liftM x : Action (Job σ κ) α).Mirrors (Alike W T) (liftM x) := by
  refine .zoom (.refl x) (fun _ _ hj => hW.host _ _ hj.storage.world) ?_
  rintro _ _ h _ hj rfl
  exact { hj with storage := { hj.storage with world := hW.withHost _ _ h hj.storage.world } }

theorem mirrors_caller (x : Action (Caller κ) α) :
    (liftM x : Action (Job σ κ) α).Mirrors (Alike W T) (liftM x) := by
  refine .zoom (.refl x) (fun j k hj => ?_) ?_
  · rw [show j.host = k.host from hW.host _ _ hj.storage.world, hj.client]
  · rintro _ _ c _ hj rfl
    exact { hj with
      storage := { hj.storage with world := hW.withHost _ _ c.host hj.storage.world }
      client := rfl }

theorem mirrors_note (level : Level) (message : String) :
    (note level message : Action (Job σ κ) Unit).Mirrors (Alike W T) (note level message) :=
  mirrors_host hW _

theorem mirrors_enter (id : String) (state : JobState) :
    (enter id state : Action (Job σ κ) Unit).Mirrors (Alike W T) (enter id state) :=
  .bind (.read fun _ _ hj => congrArg Runner.state hj.runner) fun _ =>
    .bind (mirrors_note hW _ _) fun _ => mirrors_updateRunner _

/-! ## Making ready -/

theorem mirrors_renew (h : Engine.Mirrors W E e e') :
    (renew e : Action (Job σ κ) Unit).Mirrors (Alike W T) (renew e') := by
  refine .get_bind fun j k hj => ?_
  rw [hj.runner]
  exact .ite (.bind (mirrors_note hW _ _) fun _ => .bind (simulates_world h.reset) fun _ =>
    mirrors_updateRunner _) (.pure _)

theorem mirrors_ensureLoaded (h : Engine.Mirrors W E e e') :
    (ensureLoaded e : Action (Job σ κ) Unit).Mirrors (Alike W T) (ensureLoaded e') := by
  refine .get_bind fun j k hj => ?_
  rw [hj.runner, show e.isLoaded j.engine = e'.isLoaded k.engine from h.isLoaded _ _ hj.storage.world]
  exact .ite (.pure _) (mirrors_distrusting
    (Deadline.mirrors_call _ _ (fun _ => mirrors_host hW _) (simulates_world h.load)))

theorem mirrors_sourceDuration (probe : DurationProbe κ) (source : MediaFile) :
    (sourceDuration probe source : Action (Job σ κ) Number).Mirrors (Alike W T)
      (sourceDuration probe source) := by
  refine .bind (mirrors_caller hW _).attempt fun o => ?_
  match o with
  | .ok none => exact .pure _
  | .ok (some _) => exact .pure _
  | .error _ => exact .bind (mirrors_note hW _ _) fun _ => .pure _

theorem mirrors_ready (h : Engine.Mirrors W E e e') (probe : DurationProbe κ) (r : JobRequest)
    (s : Settings) :
    (ready e probe r s : Action (Job σ κ) Number).Mirrors (Alike W T) (ready e' probe r s) :=
  .bind (.bind (mirrors_renew hW h) fun _ => mirrors_ensureLoaded hW h) fun _ =>
    .ite (mirrors_sourceDuration hW _ _) (.pure _)

theorem mirrors_ensure (h : Engine.Mirrors W E e e') (l : FontLoader) (font : Option MediaFile) :
    (l.ensure e font).Mirrors W (l.ensure e' font) := by
  have host {β : Type} (x : Action Host β) :
      (liftM x : Action (World σ) β).Mirrors W (liftM x) := by
    refine .zoom (.refl x) hW.host ?_
    rintro _ _ h _ hw rfl
    exact hW.withHost _ _ h hw
  have placed : (l.place e font).Mirrors W (l.place e' font) :=
    .bind (host _) fun _ => .ite (.pure _) (.bind (host _) fun _ =>
      .bind (h.write _ _) fun _ => .pure _)
  refine .bind placed.attempt fun o => ?_
  match o with
  | .error _ => exact .bind (host _) fun _ => .pure _
  | .ok (_, false) => exact .pure _
  | .ok (_, true) => exact .bind (host _) fun _ => .pure _

theorem mirrors_prepareFont (h : Engine.Mirrors W E e e') (r : JobRequest) (s : Settings) :
    (prepareFont e r s : Action (Job σ κ) Unit).Mirrors (Alike W T) (prepareFont e' r s) := by
  refine .ite (.bind (.get_bind fun j k hj => ?_) fun _ => .pure _) (.pure _)
  rw [hj.runner]
  exact .bind (simulates_world (mirrors_ensure hW h _ _)) fun _ =>
    .bind (mirrors_updateRunner _) fun _ => .pure _

/-! ## In working storage -/

theorem mirrors_discard (h : Engine.Mirrors W E e e') (name : String) :
    (Storage.discard e name).Mirrors (Storage.Alike W) (Storage.discard e' name) := by
  refine .bind (Action.Mirrors.attempt (simulates_stored (h.delete _))) fun o => ?_
  match o with
  | .ok () => exact .pure _
  | .error _ =>
    refine .ite (.pure _) (.zoom (.refl _) (fun _ _ hs => hW.host _ _ hs.world) ?_)
    rintro _ _ h _ hs rfl
    exact { hs with world := hW.withHost _ _ h hs.world }

theorem mirrors_discardAll (h : Engine.Mirrors W E e e') : ∀ names : List String,
    (Storage.discardAll e names).Mirrors (Storage.Alike W) (Storage.discardAll e' names)
  | [] => .pure _
  | _ :: rest => .bind (mirrors_discard hW h _) fun _ => mirrors_discardAll h rest

theorem mirrors_release (h : Engine.Mirrors W E e e') :
    (Storage.release e).Mirrors (Storage.Alike W) (Storage.release e') := by
  refine .get_bind fun s t hs => ?_
  rw [hs.claimed]
  exact .bind (mirrors_discardAll hW h _) fun _ => .modify fun _ _ hs => { hs with claimed := rfl }

theorem mirrors_claimNames (h : Engine.Mirrors W E e e') (names : JobNames) :
    (claimNames e names : Action (Job σ κ) Unit).Mirrors (Alike W T) (claimNames e' names) :=
  .bind (simulates_storage (mirrors_discardAll hW h _)) fun _ =>
    simulates_storage (mirrors_claimAll _)

theorem mirrors_stageFile (h : Engine.Mirrors W E e e') (name : String) (m : MediaFile) :
    (stageFile e name m : Action (Job σ κ) Unit).Mirrors (Alike W T) (stageFile e' name m) := by
  refine .bind (.bind (mirrors_host hW _).attempt fun o => ?_) fun _ =>
    simulates_storage (mirrors_stage h _ _)
  match o with
  | .ok _ => exact .pure _
  | .error _ => exact .ite (.raise _) (.raise _)

theorem mirrors_stageFiles (h : Engine.Mirrors W E e e') (r : JobRequest) (s : Settings)
    (image : Option MediaFile) (names : JobNames) (d : Number) :
    (stageFiles e r s image names d : Action (Job σ κ) (List String)).Mirrors (Alike W T)
      (stageFiles e' r s image names d) := by
  have imaged : (stageImage e image names : Action (Job σ κ) Unit).Mirrors (Alike W T)
      (stageImage e' image names) := by
    unfold stageImage
    split
    · exact mirrors_stageFile hW h _ _
    · exact .pure _
  refine .bind (mirrors_stageFile hW h _ _) fun _ => .bind imaged fun _ => .get_bind fun j k hj => ?_
  rw [show j.host = k.host from hW.host _ _ hj.storage.world]
  exact .bind (.ofExcept _) fun _ => mirrors_host hW _

/-! ## The execution of a command -/

omit hW in
theorem simulates_start (h : Engine.Mirrors W E e e') (arguments : List String) :
    (start e arguments : Action (Job σ κ) _).Simulates (Alike W T) (Execution.Mirrors (Alike W T) E)
      (start e' arguments) :=
  (simulates_world (h.execute arguments)).bind fun _ _ hx =>
    .pure (hx.zoom (fun _ _ hj => hj.storage.world) fun _ _ _ _ hj hw =>
      { hj with storage := { hj.storage with world := hw } })

/-- The events that `E` relates are handled alike. -/
def HandledAlike (W : World σ → World σ' → Prop) (T : Progress.Tracker → Progress.Tracker → Prop)
    (E : EngineEvent → EngineEvent → Prop) (id : String) (listener : Option (ProgressListener κ)) :
    Prop :=
  ∀ a b, E a b → (handle id listener a : Action (Job σ κ) _).Mirrors (Alike W T) (handle id listener b)

theorem mirrors_render (h : Engine.Mirrors W E e e') {id : String}
    {listener : Option (ProgressListener κ)} (handled : HandledAlike W T E id listener)
    (arguments : List String) :
    (render e id arguments listener : Action (Job σ κ) Unit).Mirrors (Alike W T)
      (render e' id arguments listener) :=
  .bind mirrors_config fun _ => mirrors_distrusting (Deadline.mirrors_relay
    (fun _ _ hj => congrArg Host.clock (hW.host _ _ hj.storage.world)) _ _ (simulates_start h _) handled)

/-! ## A run -/

theorem mirrors_collect (h : Engine.Mirrors W E e e') (r : JobRequest) (names : JobNames) :
    (collect e r names : Action (Job σ κ) ByteArray).Mirrors (Alike W T) (collect e' r names) := by
  have output : (readOutput e names.output : Action (Job σ κ) ByteArray).Mirrors (Alike W T)
      (readOutput e' names.output) :=
    .bind (simulates_world (h.read _)) fun _ => .bind mirrors_config fun _ =>
      .ite (.bind (.raise _) fun _ => .pure _) (.pure _)
  exact .bind output fun _ =>
    .bind (.bind (mirrors_host hW _) fun _ => mirrors_host hW _) fun _ => .pure _

theorem mirrors_inStorage (h : Engine.Mirrors W E e e') {r : JobRequest}
    {listener : Option (ProgressListener κ)} (handled : HandledAlike W T E r.id listener)
    (s : Settings) (d : Number) :
    (inStorage e r s d listener : Action (Job σ κ) ByteArray).Mirrors (Alike W T)
      (inStorage e' r s d listener) := by
  have transcoded : (transcode e r s (imageOf r s) (namesOf r s) d listener :
      Action (Job σ κ) ByteArray).Mirrors (Alike W T)
      (transcode e' r s (imageOf r s) (namesOf r s) d listener) :=
    .bind (mirrors_stageFiles hW h _ _ _ _ _) fun _ => .bind (mirrors_enter hW _ _) fun _ =>
      .bind (mirrors_render hW h handled _) fun _ => .bind (mirrors_enter hW _ _) fun _ =>
        mirrors_collect hW h _ _
  have unclaimed : (Action.modify fun j : Job σ κ => { j with claimed := [] }).Mirrors (Alike W T)
      (.modify fun j => { j with claimed := [] }) :=
    .modify fun _ _ hj => { hj with storage := { hj.storage with claimed := rfl } }
  exact .bind (mirrors_enter hW _ _) fun _ => .bind unclaimed fun _ =>
    .ensuring (.bind (mirrors_claimNames hW h _) fun _ => transcoded)
      (simulates_storage (mirrors_release hW h))

theorem simulates_fail (id : String) (cause : Failure) :
    (fail id cause : Action (Job σ κ) α).Simulates (Alike W T) R (fail id cause) := by
  have kept (count : Int) : (Action.read fun j : Job σ κ => tailLines count j.log).Mirrors (Alike W T)
      (.read fun k => tailLines count k.log) := .read fun _ _ hj => by rw [hj.log]
  refine (mirrors_enter hW _ _).andThen fun _ => mirrors_config.andThen fun _ =>
    (kept _).andThen fun _ => (mirrors_note hW _ _).andThen fun _ => ?_
  dsimp only
  split
  · exact (mirrors_note hW _ _).andThen fun _ => .raise _
  · exact .raise _

theorem mirrors_tellProgress (listener : Option (ProgressListener κ)) (value : Binary64) :
    (tellProgress listener value : Action (Job σ κ) Unit).Mirrors (Alike W T)
      (tellProgress listener value) := by
  cases listener with
  | none => exact .pure _
  | some _ => exact mirrors_caller hW _

/-- The result tells of the progress, so it may differ as that does. -/
theorem simulates_complete {R : JobResult → JobResult → Prop} (r : JobRequest) (content : ByteArray)
    (listener : Option (ProgressListener κ))
    (result : ∀ t t', T t t' → R ⟨r.id, r.output, content.size, t.history⟩
      ⟨r.id, r.output, content.size, t'.history⟩) :
    (complete r content listener : Action (Job σ κ) JobResult).Simulates (Alike W T) R
      (complete r content listener) := by
  have told : (Action.read fun j : Job σ κ => j.tracker.history).Simulates (Alike W T)
      (fun h h' => ∃ t t', T t t' ∧ h = t.history ∧ h' = t'.history)
      (.read fun k : Job σ' κ => k.tracker.history) :=
    fun j k hj => ⟨⟨_, _, hj.tracker, rfl, rfl⟩, hj⟩
  refine (mirrors_enter hW _ _).andThen fun _ => (mirrors_tellProgress hW _ _).andThen fun _ =>
    (mirrors_note hW _ _).andThen fun _ => told.bind ?_
  rintro _ _ ⟨t, t', ht, rfl, rfl⟩
  exact .pure (result t t' ht)

/-- A run on an engine that mirrors another simulates a run on that one, if what the engines emit is
handled alike. -/
theorem simulates_run {R : JobResult → JobResult → Prop} (h : Engine.Mirrors W E e e')
    (probe : DurationProbe κ) {r : JobRequest} {listener : Option (ProgressListener κ)}
    (handled : HandledAlike W T E r.id listener) (new : T {} {})
    (result : ∀ (size : Nat) t t', T t t' →
      R ⟨r.id, r.output, size, t.history⟩ ⟨r.id, r.output, size, t'.history⟩) :
    (run e probe r listener : Action (Job σ κ) JobResult).Simulates (Alike W T) R
      (run e' probe r listener) := by
  have performed (s : Settings) : (perform e probe r s listener :
      Action (Job σ κ) ByteArray).Mirrors (Alike W T) (perform e' probe r s listener) :=
    .bind (mirrors_ready hW h _ _ _) fun _ => .bind (mirrors_prepareFont hW h _ _) fun _ =>
      mirrors_inStorage hW h handled _ _
  have begun : (begin r : Action (Job σ κ) Unit).Mirrors (Alike W T) (begin r) :=
    .bind (.modify fun _ _ hj => { hj with log := rfl, tracker := new }) fun _ => mirrors_note hW _ _
  refine (Action.Mirrors.ofNumeric _).andThen fun s => mirrors_config.andThen fun _ =>
    (Action.Mirrors.ofExcept _).andThen fun _ => begun.andThen fun _ =>
      (performed s).attempt.andThen fun o => ?_
  match o with
  | .error _ => exact simulates_fail hW _ _
  | .ok content => exact simulates_complete hW r content listener (result content.size)

end

/-- If the events are the same and the progress too, they are handled alike. -/
theorem handledAlike_eq (hW : World.Alike W) (id : String) (listener : Option (ProgressListener κ)) :
    HandledAlike W Eq Eq id listener := by
  rintro ev _ rfl
  cases ev with
  | log message =>
    refine .bind mirrors_config fun _ => .bind (.modify fun _ _ hj => ?_) fun _ =>
      .bind (mirrors_host hW _) fun _ => .pure _
    exact { hj with log := by rw [hj.log] }
  | progress report =>
    exact .bind (.read fun _ _ hj => hj.tracker) fun _ => .bind (.ofNumeric _) fun _ =>
      .bind (.modify fun _ _ hj => { hj with tracker := rfl }) fun _ =>
        .bind (mirrors_tellProgress hW _ _) fun _ => .pure _
  | other _ => exact .pure _

/-- A run on an engine that mirrors another mirrors a run on that one. -/
theorem mirrors_run (hW : World.Alike W) (h : Engine.Mirrors W Eq e e') (probe : DurationProbe κ)
    (r : JobRequest) (listener : Option (ProgressListener κ)) :
    (run e probe r listener : Action (Job σ κ) JobResult).Mirrors (Alike W Eq)
      (run e' probe r listener) :=
  simulates_run hW h probe (handledAlike_eq hW _ _) rfl fun _ _ _ same => by rw [same]

/-! ## A part of the engine's state -/

section
variable {f : σ → σ'}

/-- A job, with the state of its engine seen through `f`. -/
def map (f : σ → σ') (j : Job σ κ) : Job σ' κ where
  host := j.host
  engine := f j.engine
  claimed := j.claimed
  runner := j.runner
  log := j.log
  tracker := j.tracker
  client := j.client

theorem alike_map (f : σ → σ') (j : Job σ κ) : Alike (Seen (World.map f)) Eq j (j.map f) :=
  ⟨⟨rfl, rfl⟩, rfl, rfl, rfl, rfl⟩

theorem Alike.eq_map {j : Job σ κ} {k : Job σ' κ} (h : Alike (Seen (World.map f)) Eq j k) :
    k = j.map f := by
  obtain ⟨⟨world, claimed⟩, runner, log, tracker, client⟩ := h
  rcases k with ⟨⟨_, _⟩, _, _, _, _⟩
  simp_all [Seen, World.map, map]

end

/-- A record of the engine's steps changes nothing about a run. -/
theorem run_unrecorded (e : Engine σ) (probe : DurationProbe κ) (r : JobRequest)
    (listener : Option (ProgressListener κ)) (j : Job (Recorded σ) κ) :
    (run e probe r listener).run (j.map Recorded.engine) =
      (((run e.recorded probe r listener).run j).1,
        ((run e.recorded probe r listener).run j).2.map Recorded.engine) := by
  obtain ⟨ends, state⟩ := (mirrors_run (World.alike_seen _) e.mirrors_recorded probe r
    listener).run_eq (alike_map Recorded.engine j)
  exact Prod.ext ends.symm state.eq_map

end Job

end VideoExport
