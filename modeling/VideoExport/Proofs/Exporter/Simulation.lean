import VideoExport.Proofs.Exporter.Life
import VideoExport.Proofs.Job.Simulation

/-!
# Exporters on engines that mirror each other

What a client asks of an exporter is done on an engine as it is on one that the engine mirrors
(`Operation.mirrors_run`), so a record of the engine's steps changes nothing about it either
(`Operation.run_unrecorded`).
-/

set_option autoImplicit false

namespace VideoExport

variable {σ σ' κ α : Type} {W : World σ → World σ' → Prop} {e : Engine σ} {e' : Engine σ'}

/-! ## Batches -/

namespace Batch

variable (hW : World.Alike W) (h : Engine.Mirrors W Eq e e')

theorem mirrors_queue (f : Queue → α) :
    (Action.read fun j : State σ κ => f j.client.queue).Mirrors (Job.Alike W Eq)
      (.read fun j => f j.client.queue) :=
  .read fun _ _ hj => congrArg (fun desk => f desk.queue) hj.client

include hW h

theorem mirrors_renderItem (probe : DurationProbe (Desk κ)) (directory : Path) (settings : Settings)
    (attachments : Attachments) (listener : Option (ItemListener κ)) (item : QueueItem) :
    (renderItem e probe directory settings attachments listener item).Mirrors (Job.Alike W Eq)
      (renderItem e' probe directory settings attachments listener item) :=
  .bind (Job.mirrors_caller hW _) fun _ => .bind (Job.mirrors_run hW h _ _ _).attempt fun _ =>
    .bind (Job.mirrors_caller hW _) fun _ => Job.mirrors_caller hW _

theorem mirrors_renderItems (probe : DurationProbe (Desk κ)) (directory : Path) (settings : Settings)
    (attachments : Attachments) (listener : Option (ItemListener κ)) (total : Nat) :
    ∀ (position : Nat) (items : List QueueItem),
    (renderItems e probe directory settings attachments listener total position items).Mirrors
      (Job.Alike W Eq)
      (renderItems e' probe directory settings attachments listener total position items)
  | _, [] => .pure _
  | _, _ :: rest => .bind (Job.mirrors_host hW _) fun _ =>
    .bind (mirrors_renderItem hW h _ _ _ _ _ _) fun _ => mirrors_renderItems _ _ _ _ _ _ _ rest

theorem mirrors_render (probe : DurationProbe (Desk κ)) (directory : Path) (settings : Raw)
    (attachments : Attachments) (listener : Option (ItemListener κ)) :
    (render e probe directory settings attachments listener).Mirrors (Job.Alike W Eq)
      (render e' probe directory settings attachments listener) := by
  have work (snapshot : Settings) : (do
      let items ← Action.read fun j : State σ κ => j.client.queue.pending
      Host.log .info logSource s!"Iniciando lote com {items.length} itens"
      renderItems e probe directory snapshot attachments listener items.length 1 items
      return items.map (·.ticket) : Action (State σ κ) (List Nat)).Mirrors (Job.Alike W Eq) (do
      let items ← Action.read fun j : State σ' κ => j.client.queue.pending
      Host.log .info logSource s!"Iniciando lote com {items.length} itens"
      renderItems e' probe directory snapshot attachments listener items.length 1 items
      return items.map (·.ticket)) :=
    .bind (mirrors_queue (·.pending)) fun _ => .bind (Job.mirrors_host hW _) fun _ =>
      .bind (mirrors_renderItems hW h _ _ _ _ _ _ _ _) fun _ => .pure _
  refine .bind (Job.mirrors_caller hW _) fun begun => .ite (.pure _) ?_
  exact .bind (.ofNumeric _) fun snapshot => .bind (Job.mirrors_caller hW _) fun _ =>
    .bind (.ensuring (work snapshot) (Job.mirrors_caller hW _)) fun _ =>
    .bind (mirrors_queue id) fun _ => .bind (Job.mirrors_host hW _) fun _ => .pure _

end Batch

/-! ## Operations -/

/-- The jobs of two exporters are alike, and all else is the same. -/
structure Exporter.Alike (W : World σ → World σ' → Prop) (x : Exporter σ κ) (y : Exporter σ' κ) :
    Prop where
  job : Job.Alike W Eq x.toJob y.toJob
  settings : x.settings = y.settings
  attachments : x.attachments = y.attachments

namespace Exporter

theorem mirrors_job {x : Action (Job σ (Desk κ)) α} {y : Action (Job σ' (Desk κ)) α}
    (h : x.Mirrors (Job.Alike W Eq) y) :
    (liftM x : Action (Exporter σ κ) α).Mirrors (Alike W) (liftM y) :=
  .zoom h (fun _ _ hx => hx.job) fun _ _ _ _ hx hj => { hx with job := hj }

theorem mirrors_hasImage : (hasImage : Action (Exporter σ κ) Bool).Mirrors (Alike W) hasImage :=
  .read fun _ _ hx => by rw [hx.attachments]

theorem mirrors_config : (config : Action (Exporter σ κ) Config).Mirrors (Alike W) config :=
  .read fun _ _ hx => congrArg Runner.config hx.job.runner

theorem mirrors_putSettings (settings : Settings) :
    (putSettings settings : Action (Exporter σ κ) Unit).Mirrors (Alike W) (putSettings settings) :=
  .modify fun _ _ hx => { hx with settings := rfl }

theorem mirrors_update (changes : Settings.Changes) :
    (update changes : Action (Exporter σ κ) Unit).Mirrors (Alike W) (update changes) := by
  refine .bind (.ofExcept _) fun _ => .get_bind fun x y hx => .bind mirrors_hasImage fun _ => ?_
  rw [hx.settings]
  exact .bind (.ofExcept _) fun _ => mirrors_putSettings _

variable (hW : World.Alike W)
include hW

theorem mirrors_host (x : Action Host α) :
    (liftM x : Action (Exporter σ κ) α).Mirrors (Alike W) (liftM x) :=
  mirrors_job (Job.mirrors_host hW x)

theorem mirrors_requestFor (path : Path) :
    (requestFor path : Action (Exporter σ κ) JobRequest).Mirrors (Alike W) (requestFor path) := by
  have sized (source : MediaFile) : (sourceSize source : Action (Exporter σ κ) Nat).Mirrors (Alike W)
      (sourceSize source) := by
    refine .bind (mirrors_host hW _).attempt fun o => ?_
    match o with
    | .ok _ => exact .pure _
    | .error g => exact .ite (.bind (mirrors_host hW _) fun _ => .raise _) (.raise g)
  have drawn : (drawRequest path : Action (Exporter σ κ) JobRequest).Mirrors (Alike W)
      (drawRequest path) := by
    refine .get_bind fun x y hx => .bind (mirrors_host hW _) fun _ =>
      .bind (.bind mirrors_config fun _ => .pure _) fun _ => ?_
    rw [hx.settings, hx.attachments]
    exact .pure _
  refine .bind (sized _) fun size => .bind mirrors_config fun c => .ite ?_ drawn
  exact .bind (.ofExcept _) fun _ => .bind (mirrors_host hW _) fun _ => drawn

/-- An operation on an engine that mirrors another mirrors the operation on that one. -/
theorem Operation.mirrors_run (h : Engine.Mirrors W Eq e e') : ∀ op : Operation κ,
    (op.run e).Mirrors (Alike W) (op.run e')
  | .update _ => mirrors_update _
  | .setSettings _ => .bind mirrors_hasImage fun _ => .bind (.ofNumeric _) fun _ =>
    mirrors_putSettings _
  | .resetSettings => mirrors_putSettings _
  | .attachImage _ =>
    .bind (.modify fun _ _ hx => { hx with attachments := by rw [hx.attachments] }) fun _ =>
      mirrors_update _
  | .attachFont _ => .modify fun _ _ hx => { hx with attachments := by rw [hx.attachments] }
  | .exportFile path _ => by
    refine .bind (.bind (mirrors_requestFor hW path) fun _ => .get_bind fun x y hx => ?_) fun _ => .pure _
    rw [show x.probe = y.probe by unfold probe; rw [hx.job.runner]]
    exact mirrors_job (Job.mirrors_run hW h _ _ _)
  | .enqueue _ => .bind (mirrors_job (Job.mirrors_caller hW _)) fun _ => .pure _
  | .runBatch _ => by
    refine .bind (.get_bind fun x y hx => .bind (.bind mirrors_config fun _ => .pure _) fun _ => ?_)
      fun _ => .pure _
    rw [show x.probe = y.probe by unfold probe; rw [hx.job.runner], hx.settings, hx.attachments]
    exact mirrors_job (Batch.mirrors_render hW h _ _ _ _ _)
  | .close => mirrors_job (Job.simulates_world h.reset)

/-! ## A part of the engine's state -/

omit hW

/-- An exporter, with the state of its engine seen through `f`. -/
def map (f : σ → σ') (x : Exporter σ κ) : Exporter σ' κ where
  toJob := x.toJob.map f
  settings := x.settings
  attachments := x.attachments

/-- A record of the engine's steps changes nothing about an operation. -/
theorem Operation.run_unrecorded (e : Engine σ) (op : Operation κ) (x : Exporter (Recorded σ) κ) :
    (op.run e).run (x.map Recorded.engine) =
      (((op.run e.recorded).run x).1, ((op.run e.recorded).run x).2.map Recorded.engine) := by
  have alike : Alike Unrecorded x (x.map Recorded.engine) :=
    ⟨Job.alike_map Recorded.engine x.toJob, rfl, rfl⟩
  obtain ⟨ends, job, settings, attachments⟩ :=
    (op.mirrors_run (World.alike_seen _) e.mirrors_recorded).run_eq alike
  refine Prod.ext ends.symm ?_
  show _ = Exporter.mk _ _ _
  rw [← job.eq_map, settings, attachments]

end Exporter

end VideoExport
