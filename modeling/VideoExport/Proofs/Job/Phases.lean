import VideoExport.Proofs.Command
import VideoExport.Proofs.Fonts
import VideoExport.Proofs.Job.Names

/-!
# The phases of a job

What each phase of a job changes. `calm S`: the host within `S`, and besides it only the log that is
kept, the progress, the client and the state of the job. `working e S P N T`: in addition steps of
the engine whose acts have `P`, and the trust in the engine by `T`; what is claimed stays as it is
once the names `N` are. `tracing e S P`: steps of the engine whose acts have `P`, and anything else
except that the configuration stays; so it is for a whole run (`tracing_run`). Those who take part in a job besides the engine are `Bystanders`.
-/

set_option autoImplicit false

namespace VideoExport

variable {σ κ : Type}

theorem Command.follows_compile (inputName outputName : String) (s : Settings)
    (context : RenderContext) :
    (compile inputName outputName s context).Follows Host.keepsFiles :=
  follows_compile_of fun _ _ _ => Host.follows_log _ _ _

/-! ## Bystanders -/

/-- Those who take part in a job besides its engine change the host within `S`: the probe of the
source's length, who listens to the progress, and the writing of the output. -/
structure Bystanders (S : HostFrame) (probe : DurationProbe κ)
    (listener : Option (ProgressListener κ)) (output : Path) : Prop where
  probe : ∀ path, (probe path).Follows (S.toEvolution.on Caller.host)
  listener : ∀ tell, listener = some tell → ∀ value,
    (tell value).Follows (S.toEvolution.on Caller.host)
  directory : (Host.ensureDirectory output.parent).Follows S.toEvolution
  file : ∀ content, (Host.writeFile output.toString content).Follows S.toEvolution

/-- Where the host may change in any way, nobody is in the way. -/
theorem Bystanders.of_all {S : HostFrame} (h : ∀ a b, S.toEvolution a b) (probe : DurationProbe κ)
    (listener : Option (ProgressListener κ)) (output : Path) :
    Bystanders S probe listener output where
  probe _ _ := h _ _
  listener _ _ _ _ := h _ _
  directory _ := h _ _
  file _ _ := h _ _

theorem Bystanders.any (probe : DurationProbe κ) (listener : Option (ProgressListener κ))
    (output : Path) : Bystanders .any probe listener output :=
  .of_all (fun _ _ => trivial) probe listener output

namespace Job

/-! ## Parts of a job -/

section
variable {α : Type} {j j' : Job σ κ} {o : Outcome α}

theorem host_eq {x : Action Host α} (h : (liftM x : Action (Job σ κ) α).run j = (o, j')) :
    ∃ t, x.run j.host = (o, t) ∧ j' = { j with host := t } := by
  cases h
  exact ⟨_, rfl, rfl⟩

theorem caller_eq {x : Action (Caller κ) α} (h : (liftM x : Action (Job σ κ) α).run j = (o, j')) :
    ∃ c, x.run ⟨j.host, j.client⟩ = (o, c) ∧ j' = { j with host := c.host, client := c.client } := by
  cases h
  exact ⟨_, rfl, rfl⟩

theorem storage_eq {x : Action (Storage σ) α} (h : (liftM x : Action (Job σ κ) α).run j = (o, j')) :
    ∃ t, x.run j.toStorage = (o, t) ∧ j' = { j with toStorage := t } := by
  cases h
  exact ⟨_, rfl, rfl⟩

theorem world_eq {x : Action (World σ) α} (h : (liftM x : Action (Job σ κ) α).run j = (o, j')) :
    ∃ t, x.run j.toWorld = (o, t) ∧ j' = { j with toWorld := t } := by
  cases h
  exact ⟨_, rfl, rfl⟩

end

/-! ## Calm phases -/

/-- The host changes within `S`, and besides it only the log, the progress, the client and the state
of the job. -/
structure Calm (S : HostFrame) (j j' : Job σ κ) : Prop where
  host : S.toEvolution j.host j'.host
  engine : j'.engine = j.engine
  claimed : j'.claimed = j.claimed
  config : j'.runner.config = j.runner.config
  trusted : j'.runner.trusted = j.runner.trusted
  fonts : j'.runner.fonts = j.runner.fonts

/-- `Calm` as an evolution. -/
def calm (S : HostFrame) : Evolution (Job σ κ) where
  Holds := Calm S
  refl _ := ⟨S.refl _, rfl, rfl, rfl, rfl, rfl⟩
  trans h₁ h₂ := ⟨S.trans h₁.host h₂.host, h₂.engine.trans h₁.engine, h₂.claimed.trans h₁.claimed,
    h₂.config.trans h₁.config, h₂.trusted.trans h₁.trusted, h₂.fonts.trans h₁.fonts⟩

section
variable {α : Type} {S : HostFrame} {probe : DurationProbe κ}
  {listener : Option (ProgressListener κ)} {output : Path}

theorem calm_host {x : Action Host α} (h : x.Follows S.toEvolution) :
    (liftM x : Action (Job σ κ) α).Follows (calm S) :=
  .zoom h fun _ _ hh => ⟨hh, rfl, rfl, rfl, rfl, rfl⟩

theorem calm_caller {x : Action (Caller κ) α} (h : x.Follows (S.toEvolution.on Caller.host)) :
    (liftM x : Action (Job σ κ) α).Follows (calm S) :=
  .zoom h fun _ _ hh => ⟨hh, rfl, rfl, rfl, rfl, rfl⟩

/-- A change of what no other phase of a job reads back. -/
theorem calm_modify {f : Job σ κ → Job σ κ} (h : ∀ j, Calm S j (f j)) :
    (Action.modify f).Follows (calm S) := .modify h

theorem calm_note (level : Level) (message : String) :
    (note level message : Action (Job σ κ) Unit).Follows (calm S) :=
  calm_host ((Host.follows_log _ _ _).of_files S)

theorem calm_enter (id : String) (state : JobState) :
    (enter id state : Action (Job σ κ) Unit).Follows (calm S) :=
  .bind (.read _) fun _ => .bind (calm_note _ _) fun _ =>
    calm_modify fun _ => ⟨S.refl _, rfl, rfl, rfl, rfl, rfl⟩

theorem calm_begin (r : JobRequest) : (begin r : Action (Job σ κ) Unit).Follows (calm S) :=
  .bind (calm_modify fun _ => ⟨S.refl _, rfl, rfl, rfl, rfl, rfl⟩) fun _ => calm_note _ _

theorem calm_sourceDuration (hb : Bystanders S probe listener output) (source : MediaFile) :
    (sourceDuration probe source : Action (Job σ κ) Number).Follows (calm S) := by
  refine .bind (calm_caller (hb.probe _)).attempt fun o => ?_
  match o with
  | .ok none => exact .pure _
  | .ok (some _) => exact .pure _
  | .error _ => exact .bind (calm_note _ _) fun _ => .pure _

theorem calm_contentFor (name : String) (m : MediaFile) :
    (contentFor name m : Action (Job σ κ) ByteArray).Follows (calm S) := by
  refine .bind (calm_host ((Host.follows_readFile _).of_files S)).attempt fun o => ?_
  match o with
  | .ok _ => exact .pure _
  | .error _ => exact .ite (.raise _) (.raise _)

theorem calm_tellProgress (hb : Bystanders S probe listener output) (value : Binary64) :
    (tellProgress listener value : Action (Job σ κ) Unit).Follows (calm S) := by
  cases hl : listener with
  | none => exact .pure _
  | some tell => exact calm_caller (hb.listener tell hl value)

theorem calm_handle (hb : Bystanders S probe listener output) (id : String) (ev : EngineEvent) :
    (handle id listener ev : Action (Job σ κ) Deadline.Demand).Follows (calm S) := by
  cases ev with
  | log message =>
    exact .bind (.read _) fun _ =>
      .bind (calm_modify fun _ => ⟨S.refl _, rfl, rfl, rfl, rfl, rfl⟩) fun _ =>
        .bind (calm_host ((Host.follows_log _ _ _).of_files S)) fun _ => .pure _
  | progress report =>
    exact .bind (.read _) fun _ => .bind (.ofNumeric _) fun _ =>
      .bind (calm_modify fun _ => ⟨S.refl _, rfl, rfl, rfl, rfl, rfl⟩) fun _ =>
        .bind (calm_tellProgress hb _) fun _ => .pure _
  | other _ => exact .pure _

theorem calm_writeOutput (hb : Bystanders S probe listener output) (content : ByteArray) :
    (writeOutput output content : Action (Job σ κ) Unit).Follows (calm S) :=
  .bind (calm_host hb.directory) fun _ => calm_host (hb.file content)

theorem calm_fail (id : String) (cause : Failure) :
    (fail id cause : Action (Job σ κ) α).Follows (calm S) := by
  refine .bind (calm_enter _ _) fun _ => .bind (.read _) fun _ => .bind (.read _) fun tail =>
    .bind (calm_note _ _) fun _ => ?_
  exact .ite (.bind (calm_note _ _) fun _ => .raise _) (.raise _)

theorem calm_complete (hb : Bystanders S probe listener output) (r : JobRequest)
    (content : ByteArray) :
    (complete r content listener : Action (Job σ κ) JobResult).Follows (calm S) :=
  .bind (calm_enter _ _) fun _ => .bind (calm_tellProgress hb _) fun _ =>
    .bind (calm_note _ _) fun _ => .bind (.read _) fun _ => .pure _

/-- Whoever handles events of an engine for a job always wants more. -/
theorem handle_more {id : String} {ev : EngineEvent} {j j' : Job σ κ} {d : Deadline.Demand}
    (h : (handle id listener ev).run j = (.returned d, j')) : d = .more := by
  cases ev with
  | log message =>
    obtain ⟨_, _, -, h⟩ := Action.bind_returned h
    obtain ⟨_, _, -, h⟩ := Action.bind_returned h
    obtain ⟨_, _, -, h⟩ := Action.bind_returned h
    cases h
    rfl
  | progress report =>
    obtain ⟨_, _, -, h⟩ := Action.bind_returned h
    obtain ⟨_, _, -, h⟩ := Action.bind_returned h
    obtain ⟨_, _, -, h⟩ := Action.bind_returned h
    obtain ⟨_, _, -, h⟩ := Action.bind_returned h
    cases h
    rfl
  | other _ =>
    cases h
    rfl

end

/-! ## Working phases -/

variable {e : Engine σ} {S : HostFrame} {P : EngineAct → Prop} {N : List String}
  {T : Evolution Bool}

/-- What is claimed stays as it is once `N` is. -/
def claims (N : List String) : Evolution (List String) where
  Holds c c' := (∀ n ∈ N, n ∈ c) → c' = c
  refl _ _ := rfl
  trans h₁ h₂ hN := by
    have h := h₁ hN
    rw [h] at h₂
    exact h₂ hN

/-- Steps of the engine whose acts have `P`, and claims of names among `N`. -/
def storing (e : Engine σ) (S : HostFrame) (P : EngineAct → Prop) (N : List String) :
    Evolution (Storage (Recorded σ)) :=
  ((traced e S P).on (·.toWorld)).and ((claims N).on (·.claimed))

/-- Besides what may happen in a calm phase, steps of the engine are made and names are claimed, and
the trust in the engine changes by `T`. -/
structure Working (e : Engine σ) (S : HostFrame) (P : EngineAct → Prop) (N : List String)
    (T : Evolution Bool) (j j' : Job (Recorded σ) κ) : Prop where
  storage : storing e S P N j.toStorage j'.toStorage
  config : j'.runner.config = j.runner.config
  trusted : T j.runner.trusted j'.runner.trusted
  fonts : j'.runner.fonts = j.runner.fonts

/-- `Working` as an evolution. -/
def working (e : Engine σ) (S : HostFrame) (P : EngineAct → Prop) (N : List String)
    (T : Evolution Bool) : Evolution (Job (Recorded σ) κ) where
  Holds := Working e S P N T
  refl _ := ⟨(storing e S P N).refl _, rfl, T.refl _, rfl⟩
  trans h₁ h₂ := ⟨(storing e S P N).trans h₁.storage h₂.storage, h₂.config.trans h₁.config,
    T.trans h₁.trusted h₂.trusted, h₂.fonts.trans h₁.fonts⟩

section
variable {α : Type} {probe : DurationProbe κ} {listener : Option (ProgressListener κ)}
  {output : Path}

theorem Calm.working {j j' : Job (Recorded σ) κ} (h : Calm S j j') : Working e S P N T j j' where
  storage := ⟨traced_of_host h.engine h.host, fun _ => h.claimed⟩
  config := h.config
  trusted := h.trusted ▸ T.refl _
  fonts := h.fonts

/-- A calm phase is a working one. -/
theorem working_calm {x : Action (Job (Recorded σ) κ) α} (h : x.Follows (calm S)) :
    x.Follows (working e S P N T) := h.mono fun _ _ h => h.working

theorem storing_world {x : Action (World (Recorded σ)) α} (h : x.Follows (traced e S P)) :
    (liftM x : Action (Storage (Recorded σ)) α).Follows (storing e S P N) :=
  .zoom h fun _ _ h => ⟨h, fun _ => rfl⟩

theorem working_storage {x : Action (Storage (Recorded σ)) α} (h : x.Follows (storing e S P N)) :
    (liftM x : Action (Job (Recorded σ) κ) α).Follows (working e S P N T) :=
  .zoom h fun _ _ h => ⟨h, rfl, T.refl _, rfl⟩

theorem working_world {x : Action (World (Recorded σ)) α} (h : x.Follows (traced e S P)) :
    (liftM x : Action (Job (Recorded σ) κ) α).Follows (working e S P N T) :=
  working_storage (storing_world h)

/-! ### Storage -/

theorem storing_claim {name : String} (hn : name ∈ N) :
    (Storage.claim name : Action (Storage (Recorded σ)) Unit).Follows (storing e S P N) := by
  refine .modify fun s => ?_
  split
  · exact (storing e S P N).refl s
  · rename_i hc
    refine ⟨(traced e S P).refl _, fun hN => ?_⟩
    simp [hN name hn] at hc

theorem storing_stage {name : String} {content : ByteArray} (hn : name ∈ N)
    (hp : P (.write name content)) :
    (Storage.stage e.recorded name content).Follows (storing e S P N) := by
  refine .bind (storing_claim hn) fun _ => .bind (storing_world (follows_write hp)).attempt
    fun o => ?_
  match o with
  | .ok () => exact .pure _
  | .error _ => exact .raise _

theorem storing_log (level : Level) (source message : String) :
    (liftM (Host.log level source message) : Action (Storage (Recorded σ)) Unit).Follows
      (storing e S P N) :=
  .zoom ((Host.follows_log level source message).of_files S) fun _ _ hh =>
    ⟨traced_of_host rfl hh, fun _ => rfl⟩

theorem storing_discard {name : String} (hp : P (.delete name)) :
    (Storage.discard e.recorded name).Follows (storing e S P N) := by
  refine .bind (storing_world (follows_delete hp)).attempt fun o => ?_
  match o with
  | .ok () => exact .pure _
  | .error _ => exact .ite (.pure _) (storing_log _ _ _)

/-! ### The engine executes a command -/

theorem working_stageFile {name : String} (m : MediaFile) (hn : name ∈ N)
    (hp : ∀ content, P (.write name content)) :
    (stageFile e.recorded name m : Action (Job (Recorded σ) κ) Unit).Follows
      (working e S P N T) :=
  .bind (working_calm (calm_contentFor _ _)) fun content =>
    working_storage (storing_stage hn (hp content))

theorem working_stageImage (image : Option MediaFile) {names : JobNames}
    (hn : ∀ n ∈ names.all, n ∈ N) (hp : ∀ n ∈ names.staged, ∀ content, P (.write n content)) :
    (stageImage e.recorded image names : Action (Job (Recorded σ) κ) Unit).Follows
      (working e S P N T) := by
  unfold stageImage
  split
  · rename_i name h
    have hm : name ∈ names.staged := by simp [JobNames.staged, h]
    exact working_stageFile _ (hn name (JobNames.mem_all_of_staged hm)) (hp name hm)
  · exact .pure _

theorem working_stageFiles (r : JobRequest) (s : Settings) (image : Option MediaFile)
    {names : JobNames} (duration : Number) (hn : ∀ n ∈ names.all, n ∈ N)
    (hp : ∀ n ∈ names.staged, ∀ content, P (.write n content)) :
    (stageFiles e.recorded r s image names duration :
      Action (Job (Recorded σ) κ) (List String)).Follows (working e S P N T) := by
  refine .bind (working_stageFile _ (hn _ (.head _)) (hp _ (.head _))) fun _ =>
    .bind (working_stageImage _ hn hp) fun _ => .bind .get fun _ => .bind (.ofExcept _) fun _ => ?_
  exact working_calm (calm_host ((Command.follows_compile _ _ _ _).of_files S))

section
variable {r : JobRequest} {s : Settings} {image : Option MediaFile} {names : JobNames}
  {duration : Number} {j j' : Job σ κ} {arguments : List String}

/-- What staging the files gives is the command that was compiled for their entries. -/
theorem stageFiles_compiled
    (h : (stageFiles e r s image names duration).run j = (.returned arguments, j')) :
    ∃ now t t', (Command.compile names.input names.output s
      { duration, timestamp := now, imageName := names.image }).run t = (.returned arguments, t') := by
  obtain ⟨_, _, -, h⟩ := Action.bind_returned h
  obtain ⟨_, _, -, h⟩ := Action.bind_returned h
  obtain ⟨_, _, -, h⟩ := Action.bind_returned h
  obtain ⟨now, _, -, h⟩ := Action.bind_returned h
  obtain ⟨_, h, -⟩ := host_eq h
  exact ⟨now, _, _, h⟩

theorem stageFiles_getLast
    (h : (stageFiles e r s image names duration).run j = (.returned arguments, j')) :
    arguments.getLast? = some names.output := by
  obtain ⟨_, _, _, compiled⟩ := stageFiles_compiled h
  exact Command.compile_getLast compiled

end

theorem working_readOutput {name : String} (hp : P (.read name)) :
    (readOutput e.recorded name : Action (Job (Recorded σ) κ) ByteArray).Follows
      (working e S P N T) :=
  .bind (working_world (follows_read hp)) fun _ => .bind (.read _) fun _ => by
    dsimp only
    split
    · exact .bind (.raise _) fun _ => .pure _
    · exact .pure _

theorem working_collect {r : JobRequest} {names : JobNames}
    (hb : Bystanders S probe listener r.output) (hp : P (.read names.output)) :
    (collect e.recorded r names : Action (Job (Recorded σ) κ) ByteArray).Follows
      (working e S P N T) :=
  .bind (working_readOutput hp) fun _ => .bind (working_calm (calm_writeOutput hb _)) fun _ =>
    .pure _

/-- What an operation does besides changing the trust in the engine. -/
theorem working_distrusting {x : Action (Job (Recorded σ) κ) α}
    (hT : ∀ b, T b false) (h : x.Follows (working e S P N T)) :
    (distrusting x).Follows (working e S P N T) := by
  refine .bind h.attempt fun o => ?_
  match o with
  | .ok _ => exact .pure _
  | .error f =>
    refine .ite (.bind (.modify fun j => ?_) fun _ => .raise f) (.raise f)
    exact ⟨(storing e S P N).refl _, rfl, hT _, rfl⟩

theorem working_start {arguments : List String} (hp : P (.execute arguments)) :
    (start e.recorded arguments : Action (Job (Recorded σ) κ) _).Follows (working e S P N T) :=
  .bind (working_world (follows_execute hp)) fun _ => .pure _

theorem follows_started {arguments : List String} {j j' : Job (Recorded σ) κ}
    {x : Execution (Job (Recorded σ) κ) EngineEvent}
    (h : (start e.recorded arguments).run j = (.returned x, j'))
    (hp : ∀ act, act.IsOf arguments → P act) : x.Follows (working e S P N T) := by
  obtain ⟨y, k, hy, hx⟩ := Action.bind_returned h
  cases hx
  obtain ⟨_, hy, -⟩ := world_eq hy
  have hf := follows_execution hy hp (S := S)
  have lift : ∀ {j : Job (Recorded σ) κ} {w : World (Recorded σ)}, traced e S P j.toWorld w →
      Working e S P N T j { j with toWorld := w } :=
    fun h => ⟨⟨h, fun _ => rfl⟩, rfl, T.refl _, rfl⟩
  refine ⟨fun m hm j => ?_, fun m hm j => ?_, .zoom hf.finish fun _ _ h => lift h⟩
  · obtain ⟨n, hn, rfl⟩ := List.mem_map.1 hm
    exact lift (hf.before n hn _)
  · obtain ⟨n, hn, rfl⟩ := List.mem_map.1 hm
    exact lift (hf.close n hn _)

/-- Executing a command makes steps of its execution. -/
theorem working_relay {id : String} {arguments : List String} (limit : Option Number)
    (hb : Bystanders S probe listener output) (he : P (.execute arguments))
    (hp : ∀ act, act.IsOf arguments → P act) :
    (Deadline.relay limit .render (start e.recorded arguments) (handle id listener) :
      Action (Job (Recorded σ) κ) Unit).Follows (working e S P N T) :=
  Deadline.follows_relay _ _ (working_start he) (fun _ _ _ h => follows_started h hp)
    fun ev => working_calm (calm_handle hb id ev)

theorem working_render {id : String} {arguments : List String}
    (hb : Bystanders S probe listener output) (hT : ∀ b, T b false) (he : P (.execute arguments))
    (hp : ∀ act, act.IsOf arguments → P act) :
    (render e.recorded id arguments listener : Action (Job (Recorded σ) κ) Unit).Follows
      (working e S P N T) :=
  .bind (.read _) fun _ => working_distrusting hT (working_relay _ hb he hp)

/-! ## Traces -/

/-- Steps of the engine whose acts have `P`, whatever else happens except to the configuration. -/
def tracing (e : Engine σ) (S : HostFrame) (P : EngineAct → Prop) :
    Evolution (Job (Recorded σ) κ) :=
  ((traced e S P).on (·.toWorld)).and (.same fun j => j.runner.config)

theorem tracing_working {x : Action (Job (Recorded σ) κ) α} (h : x.Follows (working e S P N T)) :
    x.Follows (tracing e S P) := h.mono fun _ _ h => ⟨h.storage.1, h.config⟩

theorem tracing_calm {x : Action (Job (Recorded σ) κ) α} (h : x.Follows (calm S)) :
    x.Follows (tracing e S P) := h.mono fun _ _ h => ⟨traced_of_host h.engine h.host, h.config⟩

theorem tracing_world {x : Action (World (Recorded σ)) α} (h : x.Follows (traced e S P)) :
    (liftM x : Action (Job (Recorded σ) κ) α).Follows (tracing e S P) :=
  tracing_working (N := []) (T := .still) (working_world h)

theorem tracing_runner {f : Runner → Runner} (hf : ∀ r, (f r).config = r.config) :
    (updateRunner f : Action (Job (Recorded σ) κ) Unit).Follows (tracing e S P) :=
  .modify fun j => ⟨(traced e S P).refl j.toWorld, hf j.runner⟩

theorem tracing_distrusting {x : Action (Job (Recorded σ) κ) α} (h : x.Follows (tracing e S P)) :
    (distrusting x).Follows (tracing e S P) := by
  refine .bind h.attempt fun o => ?_
  match o with
  | .ok _ => exact .pure _
  | .error f => exact .ite (.bind (tracing_runner fun _ => rfl) fun _ => .raise f) (.raise f)

theorem tracing_ready {r : JobRequest} {s : Settings} (hb : Bystanders S probe listener output)
    (hreset : P .reset) (hload : P .load) :
    (ready e.recorded probe r s : Action (Job (Recorded σ) κ) Number).Follows
      (tracing e S P) := by
  have renewed : (renew e.recorded : Action (Job (Recorded σ) κ) Unit).Follows (tracing e S P) :=
    .bind .get fun _ => .ite (.bind (tracing_calm (calm_note _ _)) fun _ =>
      .bind (tracing_world (follows_reset hreset)) fun _ => tracing_runner fun _ => rfl) (.pure _)
  have loaded : (ensureLoaded e.recorded : Action (Job (Recorded σ) κ) Unit).Follows
      (tracing e S P) := by
    refine .bind .get fun _ => .ite (.pure _) (tracing_distrusting ?_)
    refine Deadline.follows_call _ _ (tracing_world (follows_load hload)) fun _ => ?_
    exact tracing_calm (calm_host ((Host.follows_log _ _ _).of_files S))
  refine .bind (.bind renewed fun _ => loaded) fun _ => .ite ?_ (.pure _)
  exact tracing_calm (calm_sourceDuration hb _)

theorem tracing_prepareFont {r : JobRequest} {s : Settings}
    (hp : ∀ content, P (.write fontEntry content)) :
    (prepareFont e.recorded r s : Action (Job (Recorded σ) κ) Unit).Follows (tracing e S P) := by
  refine .ite (.bind (.bind .get fun _ => ?_) fun _ => .pure _) (.pure _)
  exact .bind (tracing_world (FontLoader.follows_ensure hp)) fun _ =>
    .bind (tracing_runner fun _ => rfl) fun _ => .pure _

theorem storing_discardAll (hp : ∀ n, P (.delete n)) : ∀ names : List String,
    (Storage.discardAll e.recorded names).Follows (storing e S P N)
  | [] => .pure _
  | _ :: rest => .bind (storing_discard (hp _)) fun _ => storing_discardAll hp rest

/-- What is claimed may change in any way that is not told of. -/
theorem tracing_storage {x : Action (Storage (Recorded σ)) α}
    (h : x.Follows ((traced e S P).on (·.toWorld))) :
    (liftM x : Action (Job (Recorded σ) κ) α).Follows (tracing e S P) :=
  .zoom h fun _ _ h => ⟨h, rfl⟩

theorem tracing_discardAll (hp : ∀ n, P (.delete n)) (names : List String) :
    (Storage.discardAll e.recorded names).Follows ((traced e S P).on (·.toWorld)) :=
  (storing_discardAll (N := []) hp names).mono fun _ _ h => h.1

theorem tracing_claimNames (hp : ∀ n, P (.delete n)) (names : JobNames) :
    (claimNames e.recorded names : Action (Job (Recorded σ) κ) Unit).Follows (tracing e S P) := by
  have claimed : ∀ names : List String, (Storage.claimAll (σ := Recorded σ) names).Follows
      ((traced e S P).on (·.toWorld)) := by
    intro names
    induction names with
    | nil => exact .pure _
    | cons name rest ih =>
      refine .bind (.modify fun s => ?_) fun _ => ih
      split <;> exact (traced e S P).refl s.toWorld
  exact .bind (tracing_storage (tracing_discardAll hp _)) fun _ => tracing_storage (claimed _)

theorem tracing_release (hp : ∀ n, P (.delete n)) :
    (liftM (Storage.release e.recorded) : Action (Job (Recorded σ) κ) Unit).Follows
      (tracing e S P) :=
  tracing_storage (.bind .get fun _ => .bind (tracing_discardAll hp _) fun _ =>
    .modify fun s => (traced e S P).refl s.toWorld)

theorem tracing_enter (id : String) (state : JobState) :
    (enter id state : Action (Job (Recorded σ) κ) Unit).Follows (tracing e S P) :=
  tracing_calm (calm_enter _ _)

/-- Whatever happens in working storage, steps of the engine are made whose acts have `P`, if all acts
have `P` but those that execute a command, and these if the command is what staging the files gave. -/
theorem tracing_inStorage {r : JobRequest} {s : Settings} {d : Number}
    (hb : Bystanders S probe listener r.output) (others : ∀ act, (∀ a, act ≠ .execute a) → P act)
    (commands : ∀ {j k : Job (Recorded σ) κ} {arguments},
      (stageFiles e.recorded r s (imageOf r s) (namesOf r s) d).run j = (.returned arguments, k) →
        P (.execute arguments)) :
    (inStorage e.recorded r s d listener : Action (Job (Recorded σ) κ) ByteArray).Follows
      (tracing e S P) := by
  have executed {arguments : List String} (act : EngineAct) (h : act.IsOf arguments) : P act := by
    refine others act fun a => ?_
    rcases h with rfl | rfl | rfl <;> rintro ⟨⟩
  have transcoded : (transcode e.recorded r s (imageOf r s) (namesOf r s) d listener :
      Action (Job (Recorded σ) κ) ByteArray).Follows (tracing e S P) :=
    tracing_working (N := (namesOf r s).all) (T := .any) <|
      .bind_of (working_stageFiles r s _ d (fun _ h => h) fun _ _ _ => others _ (by simp)) fun staged =>
        .bind (working_calm (calm_enter _ _)) fun _ =>
        .bind (working_render hb (fun _ => trivial) (commands staged) executed) fun _ =>
        .bind (working_calm (calm_enter _ _)) fun _ => working_collect hb (others _ (by simp))
  exact .bind (tracing_enter _ _) fun _ =>
    .bind (.modify fun j => ⟨(traced e S P).refl j.toWorld, rfl⟩) fun _ =>
    .ensuring (.bind (tracing_claimNames (fun _ => others _ (by simp)) _) fun _ => transcoded)
      (tracing_release fun _ => others _ (by simp))

/-- Whatever happens in a run, its engine makes steps, and the configuration stays. All acts have `P`
if those do that execute no command, and those that execute one which the run's settings gave. -/
theorem tracing_run_of {r : JobRequest} (hb : Bystanders S probe listener r.output)
    (others : ∀ act, (∀ a, act ≠ .execute a) → P act)
    (commands : ∀ {s d} {j k : Job (Recorded σ) κ} {arguments},
      Settings.sanitize r.settings r.attachments.image.isSome = .ok s →
      (stageFiles e.recorded r s (imageOf r s) (namesOf r s) d).run j = (.returned arguments, k) →
        P (.execute arguments)) :
    (run e.recorded probe r listener : Action (Job (Recorded σ) κ) JobResult).Follows
      (tracing e S P) := by
  have performed {s : Settings}
      (hs : Settings.sanitize r.settings r.attachments.image.isSome = .ok s) :
      (perform e.recorded probe r s listener : Action (Job (Recorded σ) κ) ByteArray).Follows
        (tracing e S P) :=
    .bind (tracing_ready hb (others _ (by simp)) (others _ (by simp))) fun _ =>
      .bind (tracing_prepareFont fun _ => others _ (by simp)) fun _ =>
        tracing_inStorage hb others (commands hs)
  refine .bind_of (.ofNumeric _) fun hs => .bind (.read _) fun _ => .bind (.ofExcept _) fun _ =>
    .bind (tracing_calm (calm_begin r)) fun _ =>
      .bind (performed (Action.ofNumeric_returned hs)).attempt fun o => ?_
  match o with
  | .error _ => exact tracing_calm (calm_fail _ _)
  | .ok _ => exact tracing_calm (calm_complete hb r _)

/-- Whatever happens in a run, its engine makes steps, and the configuration stays. -/
theorem tracing_run {r : JobRequest} (hb : Bystanders S probe listener r.output) :
    (run e.recorded probe r listener : Action (Job (Recorded σ) κ) JobResult).Follows
      (tracing e S fun _ => True) :=
  tracing_run_of hb (fun _ _ => trivial) fun _ _ => trivial

end

end Job

end VideoExport
