import VideoExport.Proofs.Command
import VideoExport.Proofs.Engine.Discretion
import VideoExport.Proofs.Fonts

/-!
# The parts of a job

Most parts of a job have to do with its engine, with the host and with what its runner remembers, but
leave its state, its client and its progress alone. What all of them have in common is found once, for any
evolution of the job that takes in what they do (`Frame`). Not among them are the changes of the state
(`enter`), the probe, and whatever deals with events of the engine or tells of the progress.
-/

set_option autoImplicit false

namespace VideoExport

variable {σ κ α : Type}

/-- An act that makes an engine ready, or brings an entry into working storage or out of it. -/
def EngineAct.Prepares : EngineAct → Prop
  | .load => True
  | .reset => True
  | .write _ _ => True
  | .delete _ => True
  | _ => False

namespace Job

/-- Whatever leaves the state of a job, its configuration, its client, its progress and its log alone
changes the job by `F`, if its engine makes no acts but those that have `P`. These change the world by
`G`. -/
structure Frame (e : Engine σ) (P : EngineAct → Prop) (G : Evolution (World σ))
    (F : Evolution (Job σ κ)) : Prop where
  engine : e.Follows P G
  prepares : ∀ act, act.Prepares → P act
  host : ∀ (w : World σ) (h : Host), Host.discreetly w.host h → G w { w with host := h }
  storage : ∀ (j : Job σ κ) (s : Storage σ), G j.toWorld s.toWorld → F j { j with toStorage := s }
  aside : ∀ (j : Job σ κ) (q : Runner), q.state = j.runner.state → q.config = j.runner.config →
    F j { j with runner := q }

namespace Frame

variable {e : Engine σ} {P : EngineAct → Prop} {G : Evolution (World σ)} {F : Evolution (Job σ κ)}
  {probe : DurationProbe κ} {r : JobRequest} {s : Settings}

section
variable (hF : Frame e P G F)
include hF

/-! ## Work on a part of the job -/

theorem onStorage {x : Action (Storage σ) α} (h : x.Follows (G.on (·.toWorld))) :
    (liftM x : Action (Job σ κ) α).Follows F := .zoom h fun j s hs => hF.storage j s hs

theorem onWorld {x : Action (World σ) α} (h : x.Follows G) :
    (liftM x : Action (Job σ κ) α).Follows F := hF.onStorage (.zoom h fun _ _ h => h)

theorem onHost {x : Action Host α} (h : x.Follows Host.discreetly) :
    (liftM x : Action (Job σ κ) α).Follows F :=
  .zoom h fun j t ht => hF.storage j { j.toStorage with host := t } (hF.host j.toWorld t ht)

theorem note {level : Level} (grave : level ≠ .debug) (message : String) :
    (Job.note level message : Action (Job σ κ) Unit).Follows F :=
  hF.onHost (Host.discreet_log _ (.inl grave))

theorem runner {f : Runner → Runner} (state : ∀ r, (f r).state = r.state)
    (config : ∀ r, (f r).config = r.config) : (updateRunner f : Action (Job σ κ) Unit).Follows F :=
  .modify fun j => hF.aside j _ (state j.runner) (config j.runner)

/-- What an operation does to the trust in the engine comes after it. -/
theorem distrusting_split {x : Action (Job σ κ) α} {j k : Job σ κ} {o : Outcome α}
    (h : (distrusting x).run j = (o, k)) :
    ∃ p t, x.run j = (p, t) ∧ F t k ∧ ∀ a, o = .returned a → p = .returned a := by
  rcases Action.attempt_bind_eq h with ⟨a, t, hx, h⟩ | ⟨f, t, hx, h⟩ | ⟨hx, rfl⟩
  · cases h
    exact ⟨_, _, hx, F.refl _, fun _ h => h⟩
  · have raised : (do
        if f.isTimeLimit then updateRunner fun r => { r with trusted := false }
        .raise f : Action (Job σ κ) α).Follows F :=
      .ite (.bind (hF.runner (fun _ => rfl) fun _ => rfl) fun _ => .raise f) (.raise f)
    refine ⟨_, _, hx, raised.of_run h, fun a ho => ?_⟩
    subst ho
    dsimp only at h
    split at h
    · obtain ⟨_, _, -, h⟩ := Action.bind_returned h
      cases h
    · cases h
  · exact ⟨_, _, hx, F.refl _, fun _ h => h⟩

theorem distrusting {x : Action (Job σ κ) α} (h : x.Follows F) : (distrusting x).Follows F := by
  intro j
  obtain ⟨_, _, hx, after, -⟩ := hF.distrusting_split (x := x) (j := j) rfl
  exact F.trans (h.of_run hx) after

/-! ## Making ready -/

theorem ensureEngine : (ensureEngine e : Action (Job σ κ) Unit).Follows F := by
  have renewed : (renew e : Action (Job σ κ) Unit).Follows F :=
    .bind .get fun _ => .ite (.bind (hF.note (by decide) _) fun _ =>
      .bind (hF.onWorld (hF.engine.reset (hF.prepares _ trivial))) fun _ =>
        hF.runner (fun _ => rfl) fun _ => rfl) (.pure _)
  refine .bind renewed fun _ => .bind .get fun _ => .ite (.pure _) (hF.distrusting ?_)
  exact Deadline.follows_call _ _ (hF.onWorld (hF.engine.load (hF.prepares _ trivial)))
    fun _ => hF.onHost (Host.discreet_log _ (.inl nofun))

theorem ready (asked : ∀ path, (liftM (probe path) : Action (Job σ κ) _).Follows F) :
    (ready e probe r s : Action (Job σ κ) Number).Follows F := by
  refine .bind hF.ensureEngine fun _ => .ite (.bind (asked _).attempt fun o => ?_) (.pure _)
  match o with
  | .ok none => exact .pure _
  | .ok (some _) => exact .pure _
  | .error _ => exact .bind (hF.note (by decide) _) fun _ => .pure _

theorem prepareFont : (prepareFont e r s : Action (Job σ κ) Unit).Follows F := by
  refine .ite (.bind (.bind .get fun j => .bind (hF.onWorld ?_) fun _ =>
    .bind (hF.runner (fun _ => rfl) fun _ => rfl) fun _ => .pure _) fun _ => .pure _) (.pure _)
  exact FontLoader.follows_ensure_of (fun _ _ => Host.discreet_log _ (.inr (by decide)))
    (fun _ _ _ => rfl) _ _ hF.host fun _ => hF.engine.write (hF.prepares _ trivial)

/-! ## Working storage -/

theorem discardAll : ∀ names : List String,
    (Storage.discardAll e names).Follows (G.on (·.toWorld))
  | [] => .pure _
  | name :: rest => by
    refine .bind (.bind (Action.Follows.attempt ?_) fun o => ?_) fun _ => discardAll rest
    · exact .zoom (hF.engine.delete (hF.prepares _ trivial)) fun _ _ h => h
    · match o with
      | .ok () => exact .pure _
      | .error _ =>
        exact .ite (.pure _) (.zoom (Host.discreet_log _ (.inr (by decide)))
          fun s h => hF.host s.toWorld h)

theorem release : (liftM (Storage.release e) : Action (Job σ κ) Unit).Follows F :=
  hF.onStorage (.bind .get fun _ => .bind (hF.discardAll _) fun _ => .modify fun _ => G.refl _)

omit hF in
theorem claim (name : String) :
    (Storage.claim name : Action (Storage σ) Unit).Follows (G.on (·.toWorld)) :=
  .modify fun s => by split <;> exact G.refl s.toWorld

omit hF in
theorem claimAll : ∀ names : List String,
    (Storage.claimAll (σ := σ) names).Follows (G.on (·.toWorld))
  | [] => .pure _
  | name :: rest => .bind (claim name) fun _ => claimAll rest

theorem claimNames (names : JobNames) : (claimNames e names : Action (Job σ κ) Unit).Follows F :=
  .bind (hF.onStorage (hF.discardAll _)) fun _ => hF.onStorage (claimAll _)

theorem unclaim : (Action.modify fun j : Job σ κ => { j with claimed := [] }).Follows F :=
  .modify fun j => hF.storage j { j.toStorage with claimed := [] } (G.refl _)

theorem contentFor (name : String) (m : MediaFile) :
    (contentFor name m : Action (Job σ κ) ByteArray).Follows F := by
  have found : m.content.Follows Host.discreetly := (Host.still_ask m.path.toString _).of_still
  refine .bind (hF.onHost found).attempt fun o => ?_
  match o with
  | .ok _ => exact .pure _
  | .error f => exact .ite (.raise _) (.raise f)

theorem stageFile (name : String) (m : MediaFile) :
    (stageFile e name m : Action (Job σ κ) Unit).Follows F := by
  refine .bind (hF.contentFor _ _) fun content =>
    hF.onStorage (.bind (claim name) fun _ => .bind (Action.Follows.attempt ?_) fun o => ?_)
  · exact .zoom (hF.engine.write (hF.prepares _ trivial)) fun _ _ h => h
  · match o with
    | .ok () => exact .pure _
    | .error _ => exact .raise _

theorem stageFiles (image : Option MediaFile) (names : JobNames) (d : Number) :
    (stageFiles e r s image names d : Action (Job σ κ) (List String)).Follows F := by
  have compiled {context : RenderContext} :
      (Command.compile names.input names.output s context).Follows Host.discreetly :=
    Command.follows_compile_of fun source hs _ => Host.discreet_log _ (.inr (by
      rintro rfl
      exact absurd hs (by decide)))
  refine .bind (hF.stageFile _ _) fun _ => .bind ?_ fun _ => .bind .get fun _ =>
    .bind (.ofExcept _) fun _ => hF.onHost compiled
  unfold stageImage
  split
  · exact hF.stageFile _ _
  · exact .pure _

/-! ## The command and its output -/

theorem start {arguments : List String} (hp : P (.execute arguments)) :
    (start e arguments : Action (Job σ κ) (Execution (Job σ κ) EngineEvent)).Follows F :=
  .bind (hF.onWorld (hF.engine.execute hp)) fun _ => .pure _

theorem started {arguments : List String} (hp : ∀ act, act.IsOf arguments → P act)
    {j k : Job σ κ} {x : Execution (Job σ κ) EngineEvent}
    (h : (Job.start e arguments).run j = (.returned x, k)) : x.Follows F := by
  obtain ⟨y, t, hy, hx⟩ := Action.bind_returned h
  cases hx
  obtain ⟨u, hu, -⟩ := Action.zoom_eq hy
  obtain ⟨w, hw, -⟩ := Action.zoom_eq hu
  have hx := hF.engine.started hw hp
  have lift (i : Job σ κ) (w : World σ) (h : G i.toWorld w) : F i { i with toWorld := w } :=
    hF.storage i { i.toStorage with toWorld := w } h
  refine ⟨fun m hm i => ?_, fun m hm i => ?_, .zoom hx.finish fun i w => lift i w⟩
  · obtain ⟨n, hn, rfl⟩ := List.mem_map.1 hm
    exact lift i _ (hx.before n hn _)
  · obtain ⟨n, hn, rfl⟩ := List.mem_map.1 hm
    exact lift i _ (hx.close n hn _)

theorem collect {names : JobNames} (hp : P (.read names.output)) :
    (collect e r names : Action (Job σ κ) ByteArray).Follows F := by
  refine .bind (.bind (hF.onWorld (hF.engine.read hp)) fun _ => .bind (.read _) fun _ => ?_)
    fun _ => .bind (.bind (hF.onHost (Host.discreet_ensureDirectory _)) fun _ =>
      hF.onHost (Host.discreet_change _ _)) fun _ => .pure _
  dsimp only
  split
  · exact .bind (.raise _) fun _ => .pure _
  · exact .pure _

end

end Frame

end Job

end VideoExport
