import VideoExport.Proofs.Engine.Discretion
import VideoExport.Proofs.Job.Output

/-!
# The footprint of a run

A run asks its engine for entries of its own names only: all that it claims in working storage is among
them, and at the end nothing is deleted but what was claimed. So the world changes as it does when the engine
is asked for these, and by what everyone else does to the host (`Engine.Reaches`), however the run ends
(`Job.follows_reach`).
-/

set_option autoImplicit false

namespace VideoExport

variable {σ κ α : Type} {e : Engine σ} {names : List String} {S : HostFrame} {G : Evolution (World σ)}

/-- The engine changes the world by `G` as long as it is asked for entries of the names only, and so does
whoever changes the host within `S`. -/
structure Engine.Reaches (e : Engine σ) (names : List String) (S : HostFrame) (G : Evolution (World σ)) :
    Prop where
  engine : e.Follows (Job.Within names) G
  host : ∀ (w : World σ) (h : Host), S.toEvolution w.host h → G w { w with host := h }

theorem Job.within_of_mem {act : EngineAct} {name : String} (mem : name ∈ names)
    (only : ∀ n, act.Touches n → n = name) : Job.Within names act :=
  .inr fun n hn => only n hn ▸ mem

/-! ## Working storage -/

namespace Storage

/-- While all that is claimed is among the names, the world changes by `G`, and no other name is claimed. -/
def claiming (names : List String) (G : Evolution (World σ)) : Evolution (Storage σ) where
  Holds s t := (∀ n ∈ s.claimed, n ∈ names) → G s.toWorld t.toWorld ∧ ∀ n ∈ t.claimed, n ∈ names
  refl _ claimed := ⟨G.refl _, claimed⟩
  trans h₁ h₂ claimed :=
    have ⟨before, claimed⟩ := h₁ claimed
    have ⟨after, claimed⟩ := h₂ claimed
    ⟨G.trans before after, claimed⟩

theorem claiming_world {x : Action (World σ) α} (hx : x.Follows G) :
    (liftM x : Action (Storage σ) α).Follows (claiming names G) := .zoom hx fun _ _ h claimed => ⟨h, claimed⟩

theorem claiming_claim {name : String} (mem : name ∈ names) :
    (claim name : Action (Storage σ) Unit).Follows (claiming names G) := by
  refine .modify fun s claimed => ?_
  split
  · exact ⟨G.refl _, claimed⟩
  · exact ⟨G.refl _, List.forall_mem_append.2 ⟨claimed, List.forall_mem_singleton.2 mem⟩⟩

theorem claiming_claimAll : ∀ {own : List String}, (∀ n ∈ own, n ∈ names) →
    (claimAll (σ := σ) own).Follows (claiming names G)
  | [], _ => .pure _
  | _ :: _, mem => .bind (claiming_claim (mem _ (.head _))) fun _ =>
      claiming_claimAll fun n hn => mem n (.tail _ hn)

section
variable (reaches : e.Reaches names S G)
include reaches

theorem claiming_stage {name : String} (mem : name ∈ names) (content : ByteArray) :
    (stage e name content).Follows (claiming names G) := by
  have written : (e.write name content).Follows G :=
    reaches.engine.write (Job.within_of_mem mem fun _ => id)
  refine .bind (claiming_claim mem) fun _ => .bind (claiming_world written).attempt fun o => ?_
  match o with
  | .ok () => exact .pure _
  | .error _ => exact .raise _

theorem claiming_discardAll : ∀ {own : List String}, (∀ n ∈ own, n ∈ names) →
    (discardAll e own).Follows (claiming names G)
  | [], _ => .pure _
  | name :: rest, mem => by
    have deleted := reaches.engine.delete (Job.within_of_mem (mem name (.head _)) fun _ => id)
    refine .bind (.bind (claiming_world deleted).attempt fun o => ?_) fun _ =>
      claiming_discardAll fun n hn => mem n (.tail _ hn)
    match o with
    | .ok () => exact .pure _
    | .error _ =>
      exact .ite (.pure _) (.zoom ((Host.follows_log _ _ _).of_files S) fun s _ h claimed =>
        ⟨reaches.host s.toWorld _ h, claimed⟩)

/-- Only what is claimed is removed at the end. -/
theorem claiming_release : (release e).Follows (claiming names G) := by
  intro s claimed
  have discarded : (discardAll e s.claimed.reverse >>= fun _ => .modify fun s => { s with claimed := [] } :
      Action (Storage σ) Unit).Follows (claiming names G) :=
    .bind (claiming_discardAll reaches fun n hn => claimed n (List.mem_reverse.1 hn)) fun _ =>
      .modify fun _ _ => ⟨G.refl _, List.forall_mem_nil _⟩
  exact discarded s claimed

end

end Storage

namespace Job

open Storage

variable {probe : DurationProbe κ} {r : JobRequest} {s : Settings} {d : Number}
  {listener : Option (ProgressListener κ)} {output : Path} {i j k w : Job σ κ}

theorem follows_distrusting {E : Evolution (Job σ κ)}
    (runner : ∀ j q, q.config = j.runner.config → E j { j with runner := q })
    {x : Action (Job σ κ) α} (hx : x.Follows E) : (distrusting x).Follows E := by
  refine .bind hx.attempt fun o => ?_
  match o with
  | .ok _ => exact .pure _
  | .error f => exact .ite (.bind (.modify fun j => runner j _ rfl) fun _ => .raise f) (.raise f)

/-- The world changes by `G`, and the configuration stays. -/
def reach (G : Evolution (World σ)) : Evolution (Job σ κ) :=
  (G.on (·.toWorld)).and (.same fun j => j.runner.config)

section
variable (reaches : e.Reaches names S G)

/-! ## Making ready -/

theorem reach_runner (j : Job σ κ) (q : Runner) (config : q.config = j.runner.config) :
    reach G j { j with runner := q } := ⟨G.refl _, config⟩

theorem reach_world {x : Action (World σ) α} (hx : x.Follows G) :
    (liftM x : Action (Job σ κ) α).Follows (reach G) :=
  have stored : (liftM x : Action (Storage σ) α).Follows (G.on (·.toWorld)) := .zoom hx fun _ _ => id
  .zoom stored fun _ _ h => ⟨h, rfl⟩

include reaches

theorem reach_of_calm (calm : Calm S j k) : reach G j k := by
  have same : k.toWorld = ⟨k.host, j.engine⟩ := by rw [← calm.engine]
  refine ⟨?_, calm.config⟩
  show G j.toWorld k.toWorld
  rw [same]
  exact reaches.host j.toWorld k.host calm.host

theorem reach_calm {x : Action (Job σ κ) α} (hx : x.Follows (calm S)) : x.Follows (reach G) :=
  hx.mono fun _ _ => reach_of_calm reaches

theorem reach_ready (hb : Bystanders S probe listener output) :
    (ready e probe r s : Action (Job σ κ) Number).Follows (reach G) := by
  have renewed : (renew e : Action (Job σ κ) Unit).Follows (reach G) :=
    .bind .get fun _ => .ite (.bind (reach_calm reaches (calm_note _ _)) fun _ =>
      .bind (reach_world (reaches.engine.reset (.inl rfl))) fun _ => .modify fun j => reach_runner j _ rfl)
        (.pure _)
  have loaded : (ensureLoaded e : Action (Job σ κ) Unit).Follows (reach G) :=
    .bind .get fun _ => .ite (.pure _) (follows_distrusting reach_runner (Deadline.follows_call _ _
      (reach_world (reaches.engine.load (.inr nofun))) fun _ =>
        reach_calm reaches (calm_host ((Host.follows_log _ _ _).of_files S))))
  exact .bind (.bind renewed fun _ => loaded) fun _ =>
    .ite (reach_calm reaches (calm_sourceDuration hb _)) (.pure _)

theorem reach_prepareFont (font : fontEntry ∈ names) :
    (prepareFont e r s : Action (Job σ κ) Unit).Follows (reach G) := by
  refine .ite (.bind (.bind .get fun _ => .bind (reach_world ?_) fun _ =>
    .bind (.modify fun j => reach_runner j _ rfl) fun _ => .pure _) fun _ => .pure _) (.pure _)
  exact FontLoader.follows_ensure_of (E := Host.keepsFiles) (fun _ _ => Host.follows_log _ _ _)
    (fun _ _ _ => rfl) _ _ (fun v h files => reaches.host v h (S.of_files files)) fun _ =>
      reaches.engine.write (within_of_mem font fun _ => id)

/-! ## In working storage -/

/-- `Storage.claiming` for a job whose configuration stays. -/
def reaching (names : List String) (G : Evolution (World σ)) : Evolution (Job σ κ) :=
  ((claiming names G).on (·.toStorage)).and (.same fun j => j.runner.config)

omit reaches in
theorem reaching_runner (j : Job σ κ) (q : Runner) (config : q.config = j.runner.config) :
    reaching names G j { j with runner := q } := ⟨(claiming names G).refl _, config⟩

omit reaches in
theorem reaching_storage {x : Action (Storage σ) α} (hx : x.Follows (claiming names G)) :
    (liftM x : Action (Job σ κ) α).Follows (reaching names G) := .zoom hx fun _ _ h => ⟨h, rfl⟩

theorem reaching_calm {x : Action (Job σ κ) α} (hx : x.Follows (calm S)) :
    x.Follows (reaching names G) := hx.mono fun _ _ calm =>
  ⟨fun claimed => ⟨(reach_of_calm reaches calm).1, fun n hn => claimed n (calm.claimed ▸ hn)⟩, calm.config⟩

theorem reaching_claimNames {own : JobNames} (mem : ∀ n ∈ own.all, n ∈ names) :
    (claimNames e own : Action (Job σ κ) Unit).Follows (reaching names G) :=
  .bind (reaching_storage (claiming_discardAll reaches fun n hn => mem n (List.mem_of_mem_filter hn)))
    fun _ => reaching_storage (claiming_claimAll mem)

theorem reaching_stageFile {name : String} (mem : name ∈ names) (m : MediaFile) :
    (stageFile e name m : Action (Job σ κ) Unit).Follows (reaching names G) :=
  .bind (reaching_calm reaches (calm_contentFor _ _)) fun content =>
    reaching_storage (claiming_stage reaches mem content)

theorem reaching_stageFiles (image : Option MediaFile) {own : JobNames} (mem : ∀ n ∈ own.all, n ∈ names) :
    (stageFiles e r s image own d : Action (Job σ κ) (List String)).Follows (reaching names G) := by
  refine .bind (reaching_stageFile reaches (mem _ (.head _)) _) fun _ => .bind ?_ fun _ =>
    .bind .get fun _ => .bind (.ofExcept _) fun _ =>
      reaching_calm reaches (calm_host ((Command.follows_compile _ _ _ _).of_files S))
  unfold stageImage
  split
  · rename_i has
    exact reaching_stageFile reaches (mem _ (JobNames.mem_all.2 (.inr (.inr has)))) _
  · exact .pure _

/-- The command is for the entry that its last argument names. -/
theorem reaching_render (hb : Bystanders S probe listener output) {arguments : List String} {name : String}
    (last : arguments.getLast? = some name) (mem : name ∈ names) (id : String) :
    (render e id arguments listener : Action (Job σ κ) Unit).Follows (reaching names G) := by
  have within {act : EngineAct} (h : act = .execute arguments ∨ act.IsOf arguments) : Within names act :=
    .inr (among_execution last mem h)
  have lift {j : Job σ κ} {v : World σ} (h : G j.toWorld v) :
      reaching names G j { j with toWorld := v } := ⟨fun claimed => ⟨h, claimed⟩, rfl⟩
  have started {j k : Job σ κ} {x : Execution (Job σ κ) EngineEvent}
      (h : (start e arguments).run j = (.returned x, k)) : x.Follows (reaching names G) := by
    obtain ⟨y, t, hy, hx⟩ := Action.bind_returned h
    cases hx
    obtain ⟨v, hy, -⟩ := world_eq hy
    have follows := reaches.engine.started hy fun _ h => within (.inr h)
    refine ⟨fun m hm j => ?_, fun m hm j => ?_, .zoom follows.finish fun _ _ => lift⟩
    · obtain ⟨n, hn, rfl⟩ := List.mem_map.1 hm
      exact lift (follows.before n hn _)
    · obtain ⟨n, hn, rfl⟩ := List.mem_map.1 hm
      exact lift (follows.close n hn _)
  have starts : (start e arguments : Action (Job σ κ) _).Follows (reaching names G) :=
    .bind (reaching_storage (claiming_world (reaches.engine.execute (within (.inl rfl))))) fun _ => .pure _
  exact .bind (.read _) fun _ => follows_distrusting reaching_runner (Deadline.follows_relay _ _ starts
    (fun _ _ _ => started) fun ev => reaching_calm reaches (calm_handle hb id ev))

theorem reaching_readOutput (name : String) :
    (readOutput e name : Action (Job σ κ) ByteArray).Follows (reaching names G) := by
  refine .bind (reaching_storage (claiming_world (reaches.engine.read (.inr nofun)))) fun _ =>
    .bind (.read _) fun _ => ?_
  dsimp only
  split
  · exact .bind (.raise _) fun _ => .pure _
  · exact .pure _

theorem reaching_transcode (hb : Bystanders S probe listener r.output)
    (mem : ∀ n ∈ (namesOf r s).all, n ∈ names) :
    (transcode e r s (imageOf r s) (namesOf r s) d listener : Action (Job σ κ) ByteArray).Follows
      (reaching names G) :=
  .bind_of (reaching_stageFiles reaches _ mem) fun staged => .bind (reaching_calm reaches (calm_enter _ _))
    fun _ => .bind (reaching_render reaches hb (stageFiles_getLast staged)
      (mem _ (JobNames.mem_all.2 (.inr (.inl rfl)))) _) fun _ =>
    .bind (reaching_calm reaches (calm_enter _ _)) fun _ => .bind (reaching_readOutput reaches _) fun _ =>
      .bind (reaching_calm reaches (calm_writeOutput hb _)) fun _ => .pure _

theorem reaching_release :
    (liftM (release e) : Action (Job σ κ) Unit).Follows (reaching names G) :=
  reaching_storage (claiming_release reaches)

/-- What was claimed before does not matter: it is forgotten at the start of the part in working storage. -/
theorem reach_opening (h : (opening r).run j = (.returned (), k)) : reach G j k ∧ k.claimed = [] := by
  obtain ⟨_, i, entered, h⟩ := Action.bind_returned h
  have before : reach G j i := reach_of_calm reaches ((calm_enter _ _).of_run entered)
  cases h
  exact ⟨before, rfl⟩

omit reaches in
theorem reach_of_reaching (unclaimed : j.claimed = []) (h : reaching names G j k) : reach G j k :=
  ⟨(h.1 (unclaimed ▸ List.forall_mem_nil _)).1, h.2⟩

theorem reach_inStorage (hb : Bystanders S probe listener r.output)
    (mem : ∀ n ∈ (namesOf r s).all, n ∈ names) :
    (inStorage e r s d listener : Action (Job σ κ) ByteArray).Follows (reach G) := by
  intro j
  have opened : (opening r).run j = (.returned (), ((opening r).run j).2) := rfl
  obtain ⟨before, unclaimed⟩ := reach_opening reaches opened
  have produced : ((produce e r s (imageOf r s) (namesOf r s) d listener).ensuring (Storage.release e) :
      Action (Job σ κ) ByteArray).Follows (reaching names G) :=
    .ensuring (.bind (reaching_claimNames reaches mem) fun _ => reaching_transcode reaches hb mem)
      (reaching_release reaches)
  exact (reach G).trans before (reach_of_reaching unclaimed (produced _))

omit reaches in
/-- However a run ends, it changes the world as the engine does when it is asked for the entries of the
run's own names. -/
theorem reach_run (reaches : ∀ s, e.Reaches (ownNames r s) S G) (hb : Bystanders S probe listener r.output) :
    (run e probe r listener : Action (Job σ κ) JobResult).Follows (reach G) := by
  refine .bind (.ofNumeric _) fun s => ?_
  have calmly {α : Type} {x : Action (Job σ κ) α} (hx : x.Follows (calm S)) : x.Follows (reach G) :=
    reach_calm (reaches s) hx
  refine .bind (.read _) fun _ => .bind (.ofExcept _) fun _ => .bind (calmly (calm_begin r)) fun _ =>
    .bind (Action.Follows.attempt ?_) fun o => ?_
  · exact .bind (reach_ready (reaches s) hb) fun _ => .bind (reach_prepareFont (reaches s) (.head _))
      fun _ => reach_inStorage (reaches s) hb fun _ hn => .tail _ hn
  · match o with
    | .error _ => exact calmly (calm_fail _ _)
    | .ok _ => exact calmly (calm_complete hb r _)

omit reaches in
/-- So it is up to the point where a run writes its output, and what it has claimed by then are names of its
own. -/
theorem reach_outputs (reaches : e.Reaches (ownNames r s) S G) (hg : Guests S probe listener)
    {content : ByteArray} (h : Outputs e probe r listener s j content w) :
    reach G j w ∧ ∀ n ∈ w.claimed, n ∈ ownNames r s := by
  have own : ∀ n ∈ (namesOf r s).all, n ∈ ownNames r s := fun _ hn => .tail _ hn
  obtain ⟨arguments, m, ⟨d, b, ⟨a, ⟨i, begins, readied⟩, prepared⟩, led⟩, fetched⟩ := h
  obtain ⟨_, c, opened, led⟩ := Action.bind_returned led
  obtain ⟨_, u, claimed, led⟩ := Action.bind_returned led
  obtain ⟨_, v, staged, led⟩ := Action.bind_returned led
  obtain ⟨_, _, entered, led⟩ := Action.bind_returned led
  cases led
  obtain ⟨_, x, rendered, fetched⟩ := Action.bind_returned fetched
  obtain ⟨_, y, entered', read⟩ := Action.bind_returned fetched
  have begun : reach G j i := reach_of_calm reaches ((calm_begin r).of_run begins.begun)
  have ready : reach G i a := (reach_ready reaches hg.bystanders).of_run readied
  have font : reach G a b := (reach_prepareFont reaches (.head _)).of_run prepared
  obtain ⟨opening, unclaimed⟩ := reach_opening reaches opened
  have last := stageFiles_getLast staged
  have working : reaching (ownNames r s) G c w := by
    have purged : reaching (ownNames r s) G c u := (reaching_claimNames reaches own).of_run claimed
    have staged : reaching (ownNames r s) G u v := (reaching_stageFiles reaches _ own).of_run staged
    have entered : reaching (ownNames r s) G v m := (reaching_calm reaches (calm_enter _ _)).of_run entered
    have rendered : reaching (ownNames r s) G m x := (reaching_render reaches hg.bystanders last
      (own _ (JobNames.mem_all.2 (.inr (.inl rfl)))) _).of_run rendered
    have entered' : reaching (ownNames r s) G x y := (reaching_calm reaches (calm_enter _ _)).of_run entered'
    have read : reaching (ownNames r s) G y w := (reaching_readOutput reaches _).of_run read
    exact (reaching (ownNames r s) G).trans purged <| (reaching (ownNames r s) G).trans staged <|
      (reaching (ownNames r s) G).trans entered <| (reaching (ownNames r s) G).trans rendered <|
        (reaching (ownNames r s) G).trans entered' read
  exact ⟨(reach G).trans begun <| (reach G).trans ready <| (reach G).trans font <|
    (reach G).trans opening (reach_of_reaching unclaimed working),
    (working.1 (unclaimed ▸ List.forall_mem_nil _)).2⟩

end

end Job

end VideoExport
