import VideoExport.Proofs.Command
import VideoExport.Proofs.Engine.Isolation
import VideoExport.Proofs.Host.Outlet
import VideoExport.Proofs.Job.Anatomy

/-!
# Twin runs of a job

Two runs of the same job, in worlds that are twins for it. What the job reads is the same in both, so the
runs do the same: they stay tied (`Tie.Jobs`) from the start of their part in working storage to their
end, and end alike (`Job.agrees_storageRest`).
-/

set_option autoImplicit false

namespace VideoExport

variable {σ κ α β : Type} {e : Engine σ}

/-! ## What is common to two runs -/

/-- What two runs of a job have in common: how the files are related and the clients, the entries that
are the job's own, what else stands in working storage in the one and in the other, the configuration
and the font that is remembered. -/
structure Tie (e : Engine σ) (κ : Type) where
  view : StorageView e
  Usual : World σ → Prop
  Files : FileTree → FileTree → Prop
  own : List String
  left : String → Option ByteArray
  right : String → Option ByteArray
  config : Config
  fonts : FontLoader
  Client : κ → κ → Prop

namespace Tie

/-- The worlds are twins. -/
def Worlds (T : Tie e κ) : World σ → World σ → Prop :=
  World.Twin T.view T.Usual T.Files T.own T.left T.right

/-- The worlds are twins, and the same own entries are claimed. -/
structure Storages (T : Tie e κ) (s t : Storage σ) : Prop where
  world : T.Worlds s.toWorld t.toWorld
  claimed : s.claimed = t.claimed
  among : ∀ n ∈ s.claimed, n ∈ T.own

/-- Two states of the job that have everything in common which the job reads. -/
structure Jobs (T : Tie e κ) (j k : Job σ κ) : Prop where
  storage : T.Storages j.toStorage k.toStorage
  config : j.runner.config = T.config ∧ k.runner.config = T.config
  fonts : j.runner.fonts = T.fonts ∧ k.runner.fonts = T.fonts
  log : j.log = k.log
  tracker : j.tracker = k.tracker
  client : T.Client j.client k.client

end Tie

/-! ## Work on the host -/

namespace Host

/-- Only the journal changes. -/
def quiet : Evolution Host where
  Holds h h' := h' = { h with journal := h'.journal }
  refl _ := rfl
  trans h₁ h₂ := by rw [h₂, h₁]

theorem quiet_log (level : Level) (source message : String) :
    (log level source message).Follows quiet := .modify fun _ => rfl

theorem quiet_readFile (path : String) : (readFile path).Follows quiet := by
  intro h
  show quiet h ((ask path fun t => (t.file path).map (·.content)) h).2
  unfold ask
  split
  · rfl
  · split <;> rfl

/-- What is read depends on the file that the path leads to. -/
theorem readFile_ends {path : String} {h h' : Host} (same : h.files.file path = h'.files.file path) :
    ((readFile path).run h).1 = ((readFile path).run h').1 := by
  unfold readFile Action.run ask
  dsimp only
  rw [same]
  split
  · rfl
  · split <;> rfl

/-- The time is the same. -/
def SameNow (h h' : Host) : Prop := h.now = h'.now

end Host

namespace Command

theorem quiet_compile (inputName outputName : String) (s : Settings) (context : RenderContext) :
    (compile inputName outputName s context).Follows Host.quiet :=
  .bind (.bind (.ofNumeric _) fun _ => .bind (Host.quiet_log _ _ _) fun _ => .pure _) fun _ =>
    .bind .get fun _ => .bind (.ofExcept _) fun _ => .bind (Host.quiet_log _ _ _) fun _ => .pure _

/-- A command depends on the time, and on nothing else of the host. -/
theorem agrees_compile (inputName outputName : String) (s : Settings) (context : RenderContext) :
    (compile inputName outputName s context).Agrees Host.SameNow
      (compile inputName outputName s context) := by
  have logged (level : Level) (source message : String) :
      (Host.log level source message).Agrees Host.SameNow (Host.log level source message) :=
    .modify fun _ _ => id
  refine .bind (.bind (.ofNumeric _) fun _ => .bind (logged _ _ _) fun _ => .pure _) fun g =>
    .get_bind fun h h' same => ?_
  have time : h.currentTime = h'.currentTime := by
    unfold Host.currentTime
    rw [show h.now = h'.now from same]
  rw [time]
  exact .bind (.ofExcept _) fun _ => .bind (logged _ _ _) fun _ => .pure _

end Command

/-! ## In working storage -/

namespace Tie

variable {T : Tie e κ} (isolated : e.Isolated T.view T.Usual)
include isolated

/-- Twin worlds stay so when something is written into the journals. -/
theorem Worlds.journal {w w' : World σ} (h : T.Worlds w w') (l l' : Journal) :
    T.Worlds { w with host := { w.host with journal := l } }
      { w' with host := { w'.host with journal := l' } } :=
  World.Twin.hosts isolated h (isolated.elsewhere w.host.files l h.left)
    (isolated.elsewhere w'.host.files l' h.right) h.files

end Tie

namespace Storage

variable {T : Tie e κ} {R : α → β → Prop}

theorem couples_world {x : Action (World σ) α} {y : Action (World σ) β}
    (h : x.Couples T.Worlds R T.Worlds y) :
    (liftM x : Action (Storage σ) α).Couples T.Storages R T.Storages (liftM y) :=
  .zoom h (fun _ _ hs => hs.world) fun _ _ _ _ hs hw => ⟨hw, hs.claimed, hs.among⟩

theorem agrees_claim {name : String} (mem : name ∈ T.own) :
    (claim name : Action (Storage σ) Unit).Agrees T.Storages (claim name) := by
  refine .modify fun s t hs => ?_
  rw [← hs.claimed]
  split
  · exact hs
  · refine ⟨hs.world, rfl, fun n hn => ?_⟩
    rcases List.mem_append.1 hn with hn | hn
    · exact hs.among n hn
    · exact List.mem_singleton.1 hn ▸ mem

theorem agrees_claimAll : ∀ {names : List String}, (∀ n ∈ names, n ∈ T.own) →
    (claimAll names : Action (Storage σ) Unit).Agrees T.Storages (claimAll names)
  | [], _ => .pure _
  | _ :: _, mem => .bind (agrees_claim (mem _ (.head _))) fun _ =>
      agrees_claimAll fun n hn => mem n (.tail _ hn)

variable (isolated : e.Isolated T.view T.Usual)
include isolated

theorem agrees_stage {name : String} (mem : name ∈ T.own) (content : ByteArray) :
    (stage e name content).Agrees T.Storages (stage e name content) := by
  have written := couples_world (World.Twin.agrees_write isolated mem content)
  refine .bind (agrees_claim mem) fun _ => .bind (Action.Agrees.attempt written) fun o => ?_
  match o with
  | .ok () => exact .pure _
  | .error _ => exact .raise _

theorem agrees_discardAll : ∀ {names : List String}, (∀ n ∈ names, n ∈ T.own) →
    (discardAll e names).Agrees T.Storages (discardAll e names)
  | [], _ => .pure _
  | name :: _, mem => by
    have deleted := couples_world (World.Twin.agrees_delete isolated (mem name (.head _)))
    refine .bind (.bind (Action.Agrees.attempt deleted) fun o => ?_) fun _ =>
      agrees_discardAll fun n hn => mem n (.tail _ hn)
    match o with
    | .ok () => exact .pure _
    | .error _ =>
      refine .ite (.pure _) fun s t hs => ⟨rfl, hs.world.journal isolated _ _, hs.claimed, hs.among⟩

theorem agrees_release : (release e).Agrees T.Storages (release e) := by
  refine .get_bind fun s t hs => ?_
  rw [← hs.claimed]
  refine .bind (agrees_discardAll isolated fun n hn => hs.among n (List.mem_reverse.1 hn)) fun _ =>
    .modify fun s t hs => ⟨hs.world, rfl, fun _ h => absurd h List.not_mem_nil⟩

end Storage

/-! ## In a job -/

namespace Job

/-- Writes a file, whose directory is made if need be. -/
def save (path : Path) (content : ByteArray) : Action Host Unit := do
  Host.ensureDirectory path.parent
  Host.writeFile path.toString content

theorem run_host (x : Action Host α) (j : Job σ κ) : (liftM x : Action (Job σ κ) α).run j =
    ((x.run j.host).1, { j with host := (x.run j.host).2 }) := rfl

theorem writeOutput_eq (path : Path) (content : ByteArray) :
    (writeOutput path content : Action (Job σ κ) Unit) = liftM (save path content) := by
  have same (j : Job σ κ) : (writeOutput path content : Action (Job σ κ) Unit).run j =
      (liftM (save path content) : Action (Job σ κ) Unit).run j := by
    rw [run_host]
    unfold writeOutput save
    rw [Action.run_bind, Action.run_bind, run_host]
    rcases (Host.ensureDirectory path.parent).run j.host with ⟨_ | _ | _, h⟩ <;> rfl
  exact funext same

theorem follows_save (path : Path) (content : ByteArray) : (save path content).Follows Host.onlyFiles :=
  .bind (Host.follows_makeDirectories _ _) fun _ => Host.follows_change

end Job

/-- Related files are the same where a job reads them and stay related when it writes its output, and
related clients stay so when its listener is told of its progress. -/
structure Accord (Files : FileTree → FileTree → Prop) (Client : κ → κ → Prop) (r : JobRequest)
    (listener : Option (ProgressListener κ)) : Prop where
  source : ∀ t u, Files t u → t.file r.source.path.toString = u.file r.source.path.toString
  image : ∀ m, r.attachments.image = some m → ∀ t u, Files t u →
    t.file m.path.toString = u.file m.path.toString
  output : ∀ content, (Job.save r.output content).Agrees (fun h h' => Files h.files h'.files)
    (Job.save r.output content)
  still : ∀ tell, listener = some tell → ∀ value, (tell value).Follows (.same Caller.host)
  tells : ∀ tell, listener = some tell → ∀ value,
    (tell value).Agrees (fun c c' => Client c.client c'.client) (tell value)

/-- What is asked so that two runs of a job stay tied: besides its own entries, those that its command
names are the same. -/
structure Tie.Suits (T : Tie e κ) (r : JobRequest) (s : Settings)
    (listener : Option (ProgressListener κ)) : Prop extends Accord T.Files T.Client r listener where
  own : T.own = (Job.namesOf r s).all
  font : T.left fontEntry = T.right fontEntry
  bare : ∀ n, IsBare n → T.left n = T.right n

namespace Job

variable {T : Tie e κ} {R : α → β → Prop} {r : JobRequest} {s : Settings}
  {listener : Option (ProgressListener κ)}

/-- What is left of a job from its part in working storage on. -/
def storageRest (e : Engine σ) (r : JobRequest) (s : Settings) (d : Number)
    (listener : Option (ProgressListener κ)) : Action (Job σ κ) JobResult :=
  (inStorage e r s d listener).attempt >>= conclude r listener

/-- What is claimed before does not matter to it. -/
theorem storageRest_unclaimed (d : Number) (j : Job σ κ) :
    (storageRest e r s d listener).run j = (storageRest e r s d listener).run { j with claimed := [] } := by
  have same : (inStorage e r s d listener).run j =
      (inStorage e r s d listener).run { j with claimed := [] } := rfl
  unfold storageRest
  rw [Action.run_bind, Action.run_bind, Action.run_attempt, Action.run_attempt, same]

theorem couples_storage {x : Action (Storage σ) α} {y : Action (Storage σ) β}
    (h : x.Couples T.Storages R T.Storages y) :
    (liftM x : Action (Job σ κ) α).Couples T.Jobs R T.Jobs (liftM y) :=
  .zoom h (fun _ _ hs => hs.storage)
    fun _ _ _ _ hs hu => ⟨hu, hs.config, hs.fonts, hs.log, hs.tracker, hs.client⟩

theorem couples_world {x : Action (World σ) α} {y : Action (World σ) β}
    (h : x.Couples T.Worlds R T.Worlds y) :
    (liftM x : Action (Job σ κ) α).Couples T.Jobs R T.Jobs (liftM y) :=
  couples_storage (Storage.couples_world h)

theorem agrees_config : (config : Action (Job σ κ) Config).Agrees T.Jobs config :=
  .read fun _ _ hs => hs.config.1.trans hs.config.2.symm

/-- What stays from one job to the next may change but for the configuration and the font. -/
theorem agrees_updateRunner {f : Runner → Runner} (config : ∀ q, (f q).config = q.config)
    (fonts : ∀ q, (f q).fonts = q.fonts) :
    (updateRunner f : Action (Job σ κ) Unit).Agrees T.Jobs (updateRunner f) :=
  .modify fun _ _ hs => ⟨hs.storage, ⟨(config _).trans hs.config.1, (config _).trans hs.config.2⟩,
    ⟨(fonts _).trans hs.fonts.1, (fonts _).trans hs.fonts.2⟩, hs.log, hs.tracker, hs.client⟩

theorem agrees_distrusting {x y : Action (Job σ κ) α} (h : x.Agrees T.Jobs y) :
    (distrusting x).Agrees T.Jobs (distrusting y) := by
  refine .bind h.attempt fun o => ?_
  match o with
  | .ok a => exact .pure a
  | .error f =>
    refine .ite (.bind ?_ fun _ => .raise f) (.raise f)
    exact agrees_updateRunner (fun _ => rfl) fun _ => rfl

section
variable (isolated : e.Isolated T.view T.Usual)
include isolated

/-- Work on the host that only writes into the journal. -/
theorem agrees_host {x y : Action Host α} (quiet : x.Follows Host.quiet) (quiet' : y.Follows Host.quiet)
    (ends : ∀ j k : Job σ κ, T.Jobs j k → (x.run j.host).1 = (y.run k.host).1) :
    (liftM x : Action (Job σ κ) α).Agrees T.Jobs (liftM y) := by
  intro j k hs
  refine ⟨?_, ?_⟩
  · show Outcome.Alike Eq (x.run j.host).1 (y.run k.host).1
    exact ends j k hs ▸ Outcome.alike_refl _
  · show T.Jobs { j with host := (x.run j.host).2 } { k with host := (y.run k.host).2 }
    rw [show (x.run j.host).2 = _ from quiet j.host, show (y.run k.host).2 = _ from quiet' k.host]
    exact ⟨⟨hs.storage.world.journal isolated _ _, hs.storage.claimed, hs.storage.among⟩,
      hs.config, hs.fonts, hs.log, hs.tracker, hs.client⟩

/-- Work on the host that only changes files. -/
theorem agrees_files {x : Action Host α} (only : x.Follows Host.onlyFiles)
    (ends : x.Agrees (fun h h' => T.Files h.files h'.files) x) :
    (liftM x : Action (Job σ κ) α).Agrees T.Jobs (liftM x) := by
  intro j k hs
  have world := hs.storage.world
  obtain ⟨alike, files⟩ := ends j.host k.host world.files
  refine ⟨alike, ?_⟩
  show T.Jobs { j with host := (x.run j.host).2 } { k with host := (x.run k.host).2 }
  have world' : T.Worlds { j.toWorld with host := (x.run j.host).2 }
      { k.toWorld with host := (x.run k.host).2 } := by
    refine world.hosts isolated ?_ ?_ files
    · rw [show (x.run j.host).2 = _ from only j.host]
      exact isolated.elsewhere _ _ world.left
    · rw [show (x.run k.host).2 = _ from only k.host]
      exact isolated.elsewhere _ _ world.right
  exact ⟨⟨world', hs.storage.claimed, hs.storage.among⟩, hs.config, hs.fonts, hs.log, hs.tracker,
    hs.client⟩

theorem agrees_note (level : Level) (message message' : String) :
    (note level message : Action (Job σ κ) Unit).Agrees T.Jobs (note level message') :=
  agrees_host isolated (Host.quiet_log _ _ _) (Host.quiet_log _ _ _) fun _ _ _ => rfl

theorem agrees_enter (id : String) (state : JobState) :
    (enter id state : Action (Job σ κ) Unit).Agrees T.Jobs (enter id state) := by
  -- the state before is not the same in both runs, but it only shows in the journal
  have before : (Action.read fun j : Job σ κ => j.runner.state).Couples T.Jobs (fun _ _ => True) T.Jobs
      (Action.read fun j : Job σ κ => j.runner.state) := fun _ _ hs => ⟨trivial, hs⟩
  refine Action.Couples.bind before fun _ _ _ => ?_
  exact Action.Agrees.bind (agrees_note isolated _ _ _) fun _ =>
    agrees_updateRunner (fun _ => rfl) fun _ => rfl

/-! ### Staging -/

theorem agrees_contentFor (name : String) (m : MediaFile)
    (same : ∀ t u, T.Files t u → t.file m.path.toString = u.file m.path.toString) :
    (contentFor name m : Action (Job σ κ) ByteArray).Agrees T.Jobs (contentFor name m) := by
  have read : (liftM m.content : Action (Job σ κ) ByteArray).Agrees T.Jobs (liftM m.content) := by
    refine agrees_host isolated (Host.quiet_readFile _) (Host.quiet_readFile _) fun j k hs => ?_
    exact Host.readFile_ends (same _ _ hs.storage.world.files)
  refine .bind read.attempt fun o => ?_
  match o with
  | .ok content => exact .pure content
  | .error f => exact .ite (.raise _) (.raise _)

theorem agrees_stageFile {name : String} (mem : name ∈ T.own) (m : MediaFile)
    (same : ∀ t u, T.Files t u → t.file m.path.toString = u.file m.path.toString) :
    (stageFile e name m : Action (Job σ κ) Unit).Agrees T.Jobs (stageFile e name m) :=
  .bind (agrees_contentFor isolated name m same) fun content =>
    couples_storage (Storage.agrees_stage isolated mem content)

variable (suits : T.Suits r s listener)
include suits

omit isolated suits in
theorem image_of_imageOf {m : MediaFile} (h : imageOf r s = some m) : r.attachments.image = some m := by
  unfold imageOf at h
  split at h
  · exact h
  · cases h

theorem agrees_stageImage :
    (stageImage e (imageOf r s) (namesOf r s) : Action (Job σ κ) Unit).Agrees T.Jobs
      (stageImage e (imageOf r s) (namesOf r s)) := by
  unfold stageImage
  split
  · rename_i m name hm hn
    refine agrees_stageFile isolated ?_ m (suits.image m (image_of_imageOf hm))
    rw [suits.own]
    exact JobNames.mem_all.2 (.inr (.inr hn))
  · exact .pure ()

theorem agrees_stageFiles (d : Number) :
    (stageFiles e r s (imageOf r s) (namesOf r s) d : Action (Job σ κ) (List String)).Agrees T.Jobs
      (stageFiles e r s (imageOf r s) (namesOf r s) d) := by
  have input : (namesOf r s).input ∈ T.own := by
    rw [suits.own]
    exact JobNames.mem_all.2 (.inl rfl)
  refine .bind (agrees_stageFile isolated input r.source suits.source) fun _ =>
    .bind (agrees_stageImage isolated suits) fun _ => .get_bind fun j k hs => ?_
  have now {j k : Job σ κ} (hs : T.Jobs j k) : j.host.now = k.host.now :=
    (isolated.time hs.storage.world.left hs.storage.world.right).2
  have time : j.host.currentTime = k.host.currentTime := by
    unfold Host.currentTime
    rw [now hs]
  rw [time]
  refine .bind (.ofExcept _) fun _ => ?_
  refine agrees_host isolated (Command.quiet_compile _ _ _ _) (Command.quiet_compile _ _ _ _)
    fun j k hs => ?_
  exact ((Command.agrees_compile _ _ _ _).run_eq (show Host.SameNow j.host k.host from now hs)).1

/-! ### Rendering -/

omit isolated in
theorem agrees_tellProgress (value : Binary64) :
    (tellProgress listener value : Action (Job σ κ) Unit).Agrees T.Jobs (tellProgress listener value) := by
  unfold tellProgress
  split
  · rename_i tell
    intro j k hs
    obtain ⟨alike, client⟩ := suits.tells tell rfl value ⟨j.host, j.client⟩ ⟨k.host, k.client⟩ hs.client
    refine ⟨alike, ?_⟩
    show T.Jobs { j with host := ((tell value).run _).2.host, client := ((tell value).run _).2.client }
      { k with host := ((tell value).run _).2.host, client := ((tell value).run _).2.client }
    rw [show ((tell value).run ⟨j.host, j.client⟩).2.host = j.host from suits.still tell rfl value _,
      show ((tell value).run ⟨k.host, k.client⟩).2.host = k.host from suits.still tell rfl value _]
    exact ⟨hs.storage, hs.config, hs.fonts, hs.log, hs.tracker, client⟩
  · exact .pure ()

theorem agrees_handle (id : String) (ev : EngineEvent) :
    (handle id listener ev : Action (Job σ κ) Deadline.Demand).Agrees T.Jobs
      (handle id listener ev) := by
  match ev with
  | .log message =>
    have logged : (liftM (Host.log .debug s!"FFmpeg.{id}" message) : Action (Job σ κ) Unit).Agrees
        T.Jobs (liftM (Host.log .debug s!"FFmpeg.{id}" message)) :=
      agrees_host isolated (Host.quiet_log _ _ _) (Host.quiet_log _ _ _) fun _ _ _ => rfl
    refine .bind agrees_config fun c => .bind (.modify fun j k hs => ?_) fun _ =>
      .bind logged fun _ => .pure _
    rw [hs.log]
    exact ⟨hs.storage, hs.config, hs.fonts, rfl, hs.tracker, hs.client⟩
  | .progress report =>
    refine .bind (.read fun _ _ hs => hs.tracker) fun _ => .bind (.ofNumeric _) fun t =>
      .bind (.modify fun j k hs => ?_) fun _ =>
        .bind (agrees_tellProgress suits t.value) fun _ => .pure _
    exact ⟨hs.storage, hs.config, hs.fonts, hs.log, rfl, hs.client⟩
  | .other _ => exact .pure _

omit suits in
/-- An execution whose output is one of the job's own entries, and whose arguments name no others that
are not the same in both worlds. -/
theorem couples_start {arguments : List String} {name : String}
    (last : arguments.getLast? = some name) (mem : name ∈ T.own)
    (shared : ∀ n ∈ fontEntry :: arguments, n ∈ T.own ∨ T.left n = T.right n) :
    (start e arguments : Action (Job σ κ) _).Couples T.Jobs (Execution.Agrees T.Jobs) T.Jobs
      (start e arguments) := by
  have started := couples_world (T := T) (World.Twin.couples_execute isolated last mem shared)
  refine Action.Couples.bind started fun x y h j k hs => ⟨?_, hs⟩
  refine h.zoom (fun _ _ hs => hs.storage.world) fun _ _ _ _ hs hw => ?_
  exact ⟨⟨hw, hs.storage.claimed, hs.storage.among⟩, hs.config, hs.fonts, hs.log, hs.tracker, hs.client⟩

theorem agrees_render {arguments : List String} (last : arguments.getLast? = some (namesOf r s).output)
    (named : ∀ a ∈ arguments, a ∈ (namesOf r s).all ∨ IsBare a) (id : String) :
    (render e id arguments listener : Action (Job σ κ) Unit).Agrees T.Jobs
      (render e id arguments listener) := by
  have clock : Deadline.SameClock (T.Jobs (σ := σ) (κ := κ)) := fun _ _ hs =>
    (isolated.time hs.storage.world.left hs.storage.world.right).1
  have mem : (namesOf r s).output ∈ T.own := by
    rw [suits.own]
    exact JobNames.mem_all.2 (.inr (.inl rfl))
  have shared : ∀ n ∈ fontEntry :: arguments, n ∈ T.own ∨ T.left n = T.right n := by
    intro n hn
    rcases List.mem_cons.1 hn with rfl | hn
    · exact .inr suits.font
    · exact (named n hn).imp (fun h => by rwa [suits.own]) (suits.bare n)
  exact .bind agrees_config fun _ => agrees_distrusting <|
    Deadline.agrees_relay clock _ _ (couples_start isolated last mem shared)
      (agrees_handle isolated suits id)

/-! ### The output -/

theorem agrees_collect :
    (collect e r (namesOf r s) : Action (Job σ κ) ByteArray).Agrees T.Jobs
      (collect e r (namesOf r s)) := by
  have mem : (namesOf r s).output ∈ T.own := by
    rw [suits.own]
    exact JobNames.mem_all.2 (.inr (.inl rfl))
  have read := couples_world (T := T) (World.Twin.agrees_read isolated mem)
  have written (content : ByteArray) : (writeOutput r.output content : Action (Job σ κ) Unit).Agrees
      T.Jobs (writeOutput r.output content) := by
    rw [writeOutput_eq]
    exact agrees_files isolated (follows_save _ _) (suits.output content)
  refine .bind (.bind read fun content => .bind agrees_config fun _ => ?_) fun content =>
    .bind (written content) fun _ => .pure _
  exact .ite (.bind (.raise _) fun _ => .pure _) (.pure _)

omit isolated suits in
/-- An argument of a job's command names one of its entries, or it is bare. -/
theorem stageFiles_arguments {names : JobNames} {image : Option MediaFile} {d : Number} {j k : Job σ κ}
    {arguments : List String}
    (h : (stageFiles e r s image names d).run j = (.returned arguments, k)) :
    ∀ a ∈ arguments, a ∈ names.all ∨ IsBare a := by
  obtain ⟨_, _, _, compiled⟩ := stageFiles_compiled h
  intro a ha
  rcases Command.compile_arguments compiled a ha with h | h | h | h
  · exact .inl (JobNames.mem_all.2 (.inl h))
  · exact .inl (JobNames.mem_all.2 (.inr (.inl h)))
  · exact .inl (JobNames.mem_all.2 (.inr (.inr h)))
  · exact .inr h

theorem agrees_transcode (d : Number) :
    (transcode e r s (imageOf r s) (namesOf r s) d listener : Action (Job σ κ) ByteArray).Agrees T.Jobs
      (transcode e r s (imageOf r s) (namesOf r s) d listener) := by
  refine Action.Couples.bind (agrees_stageFiles isolated suits d).returned fun arguments _ h => ?_
  obtain ⟨rfl, j, k, staged⟩ := h
  have last := stageFiles_getLast staged
  have named := stageFiles_arguments staged
  exact Action.Agrees.bind (agrees_enter isolated _ _) fun _ =>
    .bind (agrees_render isolated suits last named r.id) fun _ =>
      .bind (agrees_enter isolated _ _) fun _ => agrees_collect isolated suits

theorem agrees_produce (d : Number) :
    (produce e r s (imageOf r s) (namesOf r s) d listener : Action (Job σ κ) ByteArray).Agrees T.Jobs
      (produce e r s (imageOf r s) (namesOf r s) d listener) := by
  have among : ∀ n ∈ (namesOf r s).all.filter (!·.isEmpty), n ∈ T.own := fun n hn => by
    rw [suits.own]
    exact List.mem_of_mem_filter hn
  have purged := couples_storage (T := T) (Storage.agrees_discardAll isolated among)
  have claimed := couples_storage (T := T) (Storage.agrees_claimAll (e := e) (T := T) fun n hn => by
    rw [suits.own]
    exact hn)
  exact .bind (.bind purged fun _ => claimed) fun _ => agrees_transcode isolated suits d

/-- The part in working storage keeps runs tied. -/
theorem agrees_inStorage (d : Number) :
    (inStorage e r s d listener : Action (Job σ κ) ByteArray).Agrees T.Jobs
      (inStorage e r s d listener) := by
  refine .bind (agrees_enter isolated _ _) fun _ => .bind (.modify fun j k hs => ?_) fun _ => ?_
  · exact ⟨⟨hs.storage.world, rfl, fun _ h => absurd h List.not_mem_nil⟩, hs.config, hs.fonts, hs.log,
      hs.tracker, hs.client⟩
  · exact .ensuring (agrees_produce isolated suits d) (couples_storage (Storage.agrees_release isolated))

/-! ### The end of a run -/

omit suits in
theorem agrees_fail (id : String) (cause : Failure) :
    (fail id cause : Action (Job σ κ) α).Agrees T.Jobs (fail id cause) := by
  refine .bind (agrees_enter isolated _ _) fun _ => .bind agrees_config fun c =>
    .bind (.read fun j k hs => by rw [hs.log]) fun _ => .bind (agrees_note isolated _ _ _) fun _ => ?_
  exact .ite (.bind (agrees_note isolated _ _ _) fun _ => .raise _) (.raise _)

theorem agrees_complete (content : ByteArray) :
    (complete r content listener : Action (Job σ κ) JobResult).Agrees T.Jobs
      (complete r content listener) :=
  .bind (agrees_enter isolated _ _) fun _ => .bind (agrees_tellProgress suits _) fun _ =>
    .bind (agrees_note isolated _ _ _) fun _ => .bind (.read fun _ _ hs => by rw [hs.tracker]) fun _ =>
      .pure _

/-- From its part in working storage on, a job does the same in both worlds. -/
theorem agrees_storageRest (d : Number) :
    (storageRest e r s d listener : Action (Job σ κ) JobResult).Agrees T.Jobs
      (storageRest e r s d listener) := by
  refine .bind (agrees_inStorage isolated suits d).attempt fun o => ?_
  match o with
  | .error cause => exact agrees_fail isolated r.id cause
  | .ok content => exact agrees_complete isolated suits content

end

end Job

end VideoExport
