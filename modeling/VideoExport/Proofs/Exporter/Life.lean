import VideoExport.Exporter
import VideoExport.Proofs.Engine.Storage
import VideoExport.Proofs.Job.Anatomy

/-!
# The life of an exporter

`Operation`: what a client may ask of an exporter. `Life e v x ops y`: the operations `ops`, each of
which ended in one way or another, have led from `x` to `y`; between two of them anything may happen
that leaves the runner, the record of the engine and the font in working storage alone. `Starts`: an
operation comes to a job, a single export at once, and a batch once the earlier items are through.
Only exports, batches and `close` have to do with the engine (`calmly_run`).
-/

set_option autoImplicit false

namespace VideoExport.Exporter

variable {σ κ : Type}

/-! ## Operations -/

/-- What a client may ask of an exporter. -/
inductive Operation (κ : Type) where
  | update (changes : Settings.Changes)
  | setSettings (raw : Raw)
  | resetSettings
  | attachImage (image : Option MediaFile)
  | attachFont (font : Option MediaFile)
  | exportFile (path : Path) (listener : Option (ProgressListener (Desk κ)))
  | enqueue (paths : List Path)
  | runBatch (listener : Option (ItemListener κ))
  | close

/-- Does what is asked. -/
def Operation.run (e : Engine σ) : Operation κ → Action (Exporter σ κ) Unit
  | .update changes => Exporter.update changes
  | .setSettings raw => Exporter.setSettings raw
  | .resetSettings => Exporter.resetSettings
  | .attachImage image => Exporter.attachImage image
  | .attachFont font => Exporter.attachFont font
  | .exportFile path listener => do
    let _ ← Exporter.exportFile e path listener
  | .enqueue paths => do
    let _ ← Exporter.enqueue paths
  | .runBatch listener => do
    let _ ← Exporter.runBatch e listener
  | .close => Exporter.close e

/-- The path of an output. -/
def outputPath (x : Exporter σ κ) (name : String) : Path :=
  (Path.ofString x.runner.config.outputDirectory).child name

/-- Those who take part in the exports of an operation besides the engine change the host within
`S`. -/
def Operation.Innocent (S : HostFrame) (x : Exporter σ κ) : Operation κ → Prop
  | .exportFile _ listener => ∀ name, Bystanders S x.probe listener (x.outputPath name)
  | .runBatch listener => (∀ name, Bystanders S x.probe none (x.outputPath name)) ∧
    ∀ tell, listener = some tell → ∀ item, (tell item).Follows (S.toEvolution.on Caller.host)
  | _ => True

/-- An operation has come to a job, which then starts. -/
inductive Starts (e : Engine σ) (x : Exporter σ κ) :
    Operation κ → JobRequest → Job σ (Desk κ) → Prop
  | exportFile {path : Path} {listener : Option (ProgressListener (Desk κ))} {r : JobRequest}
      {y : Exporter σ κ} (requested : (requestFor path).run x = (.returned r, y)) :
      Starts e x (.exportFile path listener) r y.toJob
  /-- The batch has come to an item. -/
  | runBatch {listener : Option (ItemListener κ)} {snapshot : Settings}
      {earlier later : List QueueItem} {item : QueueItem} {i j k : Job σ (Desk κ)}
      (idle : x.client.busy = false)
      (settings : Settings.sanitize (.record x.settings.record) x.attachments.image.isSome =
        .ok snapshot)
      (items : x.client.queue.pending = earlier ++ item :: later)
      (begun : (do
        Batch.setBusy (κ := κ) true
        Host.log .info Batch.logSource
          s!"Iniciando lote com {x.client.queue.pending.length} itens"
          : Action (Job σ (Desk κ)) Unit).run x.toJob = (.returned (), i))
      (through : (Batch.renderItems e x.probe (.ofString x.runner.config.outputDirectory) snapshot
        x.attachments listener x.client.queue.pending.length 1 earlier).run i = (.returned (), j))
      (announced : (do
        Host.log .info Batch.logSource
          s!"Processando item {1 + earlier.length}/{x.client.queue.pending.length}: {item.source.name}"
        Batch.announce listener item : Action (Job σ (Desk κ)) Unit).run j = (.returned (), k)) :
      Starts e x (.runBatch listener)
        (Batch.requestFor (.ofString x.runner.config.outputDirectory) snapshot x.attachments item) k

/-! ## Lives -/

/-- Operations one after another. -/
inductive Life (e : Engine σ) (v : StorageView e) (x : Exporter (Recorded σ) κ) :
    List (Operation κ) → Exporter (Recorded σ) κ → Prop
  | start : Life e v x [] x
  /-- Time passes between two operations. -/
  | pause {ops : List (Operation κ)} {y z : Exporter (Recorded σ) κ} (before : Life e v x ops y)
      (runner : z.runner = y.runner) (steps : z.engine.steps = y.engine.steps)
      (font : v.entry z.bare fontEntry = v.entry y.bare fontEntry) : Life e v x ops z
  /-- An operation ends. -/
  | act {ops : List (Operation κ)} {op : Operation κ} {y z : Exporter (Recorded σ) κ}
      {o : Outcome Unit} (before : Life e v x ops y) (innocent : op.Innocent v.spares y)
      (ran : (op.run e.recorded).run y = (o, z)) (ends : o ≠ .stalled) : Life e v x (ops ++ [op]) z

/-! ## What has nothing to do with the engine -/

section
variable {S : HostFrame} {α : Type}

/-- The job within an exporter is calm. -/
def calmly (S : HostFrame) : Evolution (Exporter σ κ) := (Job.calm S).on (·.toJob)

theorem calmly_job {x : Action (Job σ (Desk κ)) α} (h : x.Follows (Job.calm S)) :
    (liftM x : Action (Exporter σ κ) α).Follows (calmly S) := .zoom h fun _ _ h => h

theorem calmly_host {x : Action Host α} (h : x.Follows Host.keepsFiles) :
    (liftM x : Action (Exporter σ κ) α).Follows (calmly S) :=
  calmly_job (Job.calm_host (h.of_files S))

theorem calmly_modify {f : Exporter σ κ → Exporter σ κ} (h : ∀ x, (f x).toJob = x.toJob) :
    (Action.modify f).Follows (calmly S) :=
  .modify fun x => by
    show Job.Calm S x.toJob (f x).toJob
    rw [h x]
    exact (Job.calm S).refl x.toJob

theorem calmly_update (changes : Settings.Changes) :
    (update changes : Action (Exporter σ κ) Unit).Follows (calmly S) :=
  .bind (.ofExcept _) fun _ => .bind .get fun _ => .bind (.read _) fun _ =>
    .bind (.ofExcept _) fun _ => calmly_modify fun _ => rfl

theorem follows_drawItemId : Host.drawItemId.Follows Host.keepsFiles := by
  refine .bind (fun h => ?_) fun _ => .pure _
  show (Host.drawIdentifier h).2.files = h.files
  unfold Host.drawIdentifier
  split <;> rfl

theorem calmly_sourceSize (source : MediaFile) :
    (sourceSize source : Action (Exporter σ κ) Nat).Follows (calmly S) := by
  have size : source.size.Follows Host.keepsFiles := by
    refine .bind (Host.follows_ask _ _) fun n => ?_
    cases n <;> exact .pure _
  refine .bind (calmly_host size).attempt fun o => ?_
  match o with
  | .ok _ => exact .pure _
  | .error f => exact .ite (.bind (calmly_host (Host.follows_log _ _ _)) fun _ => .raise _) (.raise _)

/-- The job that exports a file, once nothing stands in its way. -/
def drawRequest (path : Path) : Action (Exporter σ κ) JobRequest := do
  let x ← Action.get
  return {
    id := ← Host.drawItemId
    source := MediaFile.ofPath path
    settings := .record x.settings.record
    output := (← outputDirectory).child s!"processed_{path.stem}.mp4"
    attachments := x.attachments }

theorem calmly_drawRequest (path : Path) :
    (drawRequest path : Action (Exporter σ κ) JobRequest).Follows (calmly S) :=
  .bind .get fun _ => .bind (calmly_host follows_drawItemId) fun _ =>
    .bind (.bind (.read _) fun _ => .pure _) fun _ => .pure _

/-- A job comes about by a draw, with nothing but calm before it. -/
theorem requestFor_cases {path : Path} {x y : Exporter σ κ} {o : Outcome JobRequest}
    (h : (requestFor path).run x = (o, y)) :
    (∀ r, o ≠ .returned r) ∧ calmly S x y ∨
      ∃ t, calmly S x t ∧ (drawRequest path).run t = (o, y) := by
  rcases Action.bind_eq h with ⟨size, i, hi, h⟩ | ⟨f, hi, rfl⟩ | ⟨hi, rfl⟩
  · have sized : calmly S x i := (calmly_sourceSize _).of_run hi
    obtain ⟨_, _, ⟨⟩, h⟩ := Action.bind_total h ⟨_, _, rfl⟩
    split at h
    · rcases Action.bind_eq h with ⟨shown, t, ht, h⟩ | ⟨f, ht, rfl⟩ | ⟨ht, rfl⟩
      · have shown : calmly S i t := Action.Follows.of_run (.ofExcept _) ht
        obtain ⟨_, u, hu, h⟩ := Action.bind_total h ⟨_, _, rfl⟩
        have logged : calmly S t u := (calmly_host (Host.follows_log _ _ _)).of_run hu
        exact .inr ⟨u, (calmly S).trans ((calmly S).trans sized shown) logged, h⟩
      · exact .inl ⟨nofun, (calmly S).trans sized (Action.Follows.of_run (.ofExcept _) ht)⟩
      · exact .inl ⟨nofun, (calmly S).trans sized (Action.Follows.of_run (.ofExcept _) ht)⟩
    · exact .inr ⟨i, sized, h⟩
  · exact .inl ⟨nofun, (calmly_sourceSize _).of_run hi⟩
  · exact .inl ⟨nofun, (calmly_sourceSize _).of_run hi⟩

theorem calmly_requestFor (path : Path) :
    (requestFor path : Action (Exporter σ κ) JobRequest).Follows (calmly S) := by
  intro x
  rcases h : (requestFor path).run x with ⟨o, y⟩
  rcases requestFor_cases h with ⟨-, calm⟩ | ⟨t, calm, ht⟩
  · exact calm
  · exact (calmly S).trans calm ((calmly_drawRequest path).of_run ht)

theorem requestFor_output {path : Path} {x y : Exporter σ κ} {r : JobRequest}
    (h : (requestFor path).run x = (.returned r, y)) : ∃ name, r.output = x.outputPath name := by
  rcases requestFor_cases (S := .any) h with ⟨none, -⟩ | ⟨t, calm, ht⟩
  · exact absurd rfl (none r)
  · obtain ⟨_, _, ⟨⟩, ht⟩ := Action.bind_total ht ⟨_, _, rfl⟩
    obtain ⟨id, u, hu, ht⟩ := Action.bind_returned ht
    have drawn : calmly .any t u := (calmly_host follows_drawItemId).of_run hu
    have config : u.runner.config = x.runner.config := Eq.trans drawn.config calm.config
    cases ht
    refine ⟨s!"processed_{path.stem}.mp4", ?_⟩
    unfold outputPath
    rw [← config]

theorem follows_addPath (path : String) :
    (Queue.addPath path).Follows (Host.keepsFiles.on Prod.fst) := by
  have host {β : Type} {x : Action Host β} (h : x.Follows Host.keepsFiles) :
      (liftM x : Action Queue.Shelf β).Follows (Host.keepsFiles.on Prod.fst) :=
    .zoom h fun _ _ h => h
  have size : (Host.size path).Follows Host.keepsFiles := by
    refine .bind (Host.follows_ask _ _) fun n => ?_
    cases n <;> exact .pure _
  have skipped (source : MediaFile) (message : String) : (do
      Queue.warn message
      Action.modify fun s => (s.1, s.2.skip source.path)
      return none : Action Queue.Shelf (Option Nat)).Follows (Host.keepsFiles.on Prod.fst) :=
    .bind (host (Host.follows_log _ _ _)) fun _ => .bind (.modify fun _ => rfl) fun _ => .pure _
  refine .bind (host size).attempt fun o => ?_
  match o with
  | .error _ => exact .ite (skipped _ _) (.raise _)
  | .ok _ =>
    refine .bind (.read _) fun _ => .ite (skipped _ _) ?_
    exact .bind (host follows_drawItemId) fun _ => .bind (.read _) fun _ =>
      .bind (.modify fun _ => rfl) fun _ => .pure _

theorem follows_add : ∀ paths : List String,
    (Queue.add paths).Follows (Host.keepsFiles.on Prod.fst)
  | [] => .pure _
  | path :: rest => .bind (follows_addPath path) fun _ => .bind (follows_add rest) fun _ => .pure _

theorem calmly_enqueue (paths : List Path) :
    (enqueue paths : Action (Exporter σ κ) (List Nat)).Follows (calmly S) := by
  have added : (Batch.add (paths.map Path.toString) : Action (Caller (Desk κ)) _).Follows
      (S.toEvolution.on Caller.host) := .zoom (follows_add _) fun _ _ h => S.of_files h
  exact calmly_job (Job.calm_caller added)

/-- The operation has to do with the engine. -/
def Operation.UsesEngine : Operation κ → Prop
  | .exportFile _ _ | .runBatch _ | .close => True
  | _ => False

theorem calmly_run (e : Engine σ) {op : Operation κ} (h : ¬ op.UsesEngine) :
    (op.run e).Follows (calmly S) := by
  cases op with
  | update changes => exact calmly_update changes
  | setSettings raw =>
    exact .bind (.read _) fun _ => .bind (.ofNumeric _) fun _ => calmly_modify fun _ => rfl
  | resetSettings => exact calmly_modify fun _ => rfl
  | attachImage image => exact .bind (calmly_modify fun _ => rfl) fun _ => calmly_update _
  | attachFont font => exact calmly_modify fun _ => rfl
  | enqueue paths => exact .bind (calmly_enqueue paths) fun _ => .pure _
  | exportFile _ _ => exact absurd trivial h
  | runBatch _ => exact absurd trivial h
  | close => exact absurd trivial h

end

end VideoExport.Exporter
