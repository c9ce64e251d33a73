import VideoExport.Proofs.Batch.Delivery
import VideoExport.Proofs.Batch.Enlisting
import VideoExport.Proofs.Exporter.Life
import VideoExport.Proofs.Size

/-!
# The deliveries of an exporter

What a new exporter with a local engine makes of its files. The batch of what was put on its queue accounts
for all of it (`runBatch_accounts`). The export of a single file returns exactly if its job writes its output
(`exportFile_returns_iff`), which is delivered then (`exportFile_delivers`), and else it is reported to have
failed (`exportFile_raised`), if a list can have the length that the log is to keep.
-/

set_option autoImplicit false

namespace VideoExport

variable {κ : Type}

/-- Asking for the length of a video leaves the files and the client alone. -/
theorem MediaProbe.length_harmless (p : MediaProbe) : (p.length : DurationProbe κ).Harmless where
  files _ := .bind (.zoom (p.follows_duration _ (fun _ _ => Host.follows_log _ _ _) fun _ _ _ => rfl)
    fun _ _ same => same) fun _ => .pure _
  client _ := .bind (.zoom (.any _) fun _ _ _ => rfl) fun _ => .pure _

namespace Exporter

open FileTree (goal)
open LocalEngine (Housed Keeping)

variable {c : Config} {x y : Exporter LocalEngine κ} {added : List Nat}

/-- An exporter before its first export, with nothing on its queue. -/
structure Fresh (c : Config) (x : Exporter LocalEngine κ) : Prop where
  housed : Housed x.engine
  config : x.runner.config = c
  idle : x.client.busy = false
  queue : ∃ limit, x.client.queue = { maxSize := limit }

theorem fresh_ofConfig (host : Host) (setup : LocalSetup) (c : Config) (client : κ) :
    Fresh c (ofConfig host { setup } c client) :=
  ⟨LocalEngine.housed_new setup, rfl, rfl, _, rfl⟩

/-! ## A batch -/

/-- An exporter before its first export, with new items of these tickets on its queue. -/
structure Queued (c : Config) (x : Exporter LocalEngine κ) (added : List Nat) : Prop where
  housed : Housed x.engine
  config : x.runner.config = c
  idle : x.client.busy = false
  tickets : x.client.queue.pending.map (·.ticket) = added
  enlisted : ∀ item ∈ x.client.queue.pending, item.Enlisted
  distinct : (x.client.queue.items.map (·.id)).Nodup → x.client.queue.Distinct

/-- What adding files does is done to the host and the queue. -/
theorem enqueue_eq {paths : List Path} {o : Outcome (List Nat)}
    (ran : (enqueue paths).run x = (o, y)) : ∃ h q,
      (Queue.add (paths.map Path.toString)).run (x.host, x.client.queue) = (o, (h, q)) ∧
      y = { x with host := h, client := { x.client with queue := q } } := by
  unfold enqueue at ran
  obtain ⟨j, lifted, rfl⟩ := Action.zoom_eq ran
  obtain ⟨d, called, rfl⟩ := Action.zoom_eq lifted
  replace called : (Batch.add (paths.map Path.toString)).run ⟨x.host, x.client⟩ = (o, d) := called
  obtain ⟨⟨h, q⟩, added, rfl⟩ := Action.zoom_eq called
  exact ⟨h, q, added, rfl⟩

/-- Files are put on the queue of a new exporter, unless no file can have one of the paths. -/
theorem enqueue_cases {paths : List Path} {o : Outcome (List Nat)} (fresh : Fresh c x)
    (hexadecimal : x.host.Hexadecimal) (ran : (enqueue paths).run x = (o, y)) :
    (∃ path ∈ paths, Host.hasNull path.toString = true) ∧ o = .raised .nullCharacter ∨
      (∀ path ∈ paths, Host.hasNull path.toString = false) ∧ ∃ added, o = .returned added ∧
        Queued c y added := by
  obtain ⟨h, q, added, rfl⟩ := enqueue_eq ran
  obtain ⟨limit, empty⟩ := fresh.queue
  have numbers : (Queue.add (paths.map Path.toString)).Follows (Queue.numbering x.host) := Queue.numbering_add _
  have numbered : Queue.Numbered x.host (h, q) :=
    numbers.of_run added (empty ▸ Queue.numbered_empty x.host limit)
  rcases Queue.add_cases hexadecimal added with ⟨⟨_, written, null⟩, rfl⟩ | ⟨plain, xs, rfl, items, new⟩
  · obtain ⟨path, hp, rfl⟩ := List.mem_map.1 written
    exact .inl ⟨⟨path, hp, null⟩, rfl⟩
  · have items : q.items = xs := by
      have before : x.client.queue.items = [] := by rw [empty]
      exact items.trans (by rw [show ((x.host, x.client.queue).2).items = [] from before, List.nil_append])
    have pending : q.pending = xs := by
      unfold Queue.pending
      rw [items, List.filter_eq_self]
      intro item hx
      rw [(new item hx).1]
      rfl
    refine .inr ⟨fun path hp => plain _ (List.mem_map_of_mem hp), _, rfl, fresh.housed, fresh.config,
      fresh.idle, congrArg _ pending, fun item hx => (new item ?_).2, numbered.distinct⟩
    rw [← pending]
    exact hx

/-- A batch is that of the exporter's desk. -/
theorem runBatch_eq {o : Outcome (List Nat)} (ran : (runBatch LocalEngine.engine none).run x = (o, y)) :
    (Batch.render LocalEngine.engine x.probe (.ofString x.runner.config.outputDirectory)
      (.record x.settings.record) x.attachments none).run x.toJob = (o, y.toJob) ∧
        y = { x with toJob := y.toJob } := by
  unfold runBatch at ran
  rw [Action.run_bind_of_returned (Action.run_get x)] at ran
  obtain ⟨_, _, ⟨⟩, lifted⟩ := Action.bind_total ran ⟨_, _, rfl⟩
  obtain ⟨j, rendered, rfl⟩ := Action.zoom_eq lifted
  exact ⟨rendered, rfl⟩

/-- The batch of what was put on the queue accounts for all of it, unless the probe of a source never ends. -/
theorem runBatch_accounts {o : Outcome (List Nat)} (queued : Queued c x added)
    (ids : (x.client.queue.items.map (·.id)).Nodup) (fits : Batch.FitsLog c)
    (ran : (runBatch LocalEngine.engine none).run x = (o, y)) :
    (o = .stalled ∧ (LocalEngine.engine.Responsive c →
      ((MediaProbe.ofConfig c).length : DurationProbe (Desk κ)).Hangs y.host)) ∨
      o = .returned added ∧ Batch.Accounts (.ofString c.outputDirectory) x.client.queue.pending x.toJob
        y.toJob := by
  obtain ⟨ran, -⟩ := runBatch_eq ran
  obtain ⟨s, hs⟩ := Settings.sanitize_record x.settings x.attachments.image.isSome
  have config := queued.config
  have accounts := Batch.render_accounts (MediaProbe.length_harmless _) (Path.plain_ofString _) hs queued.idle
    (.inr (config.symm ▸ fits)) (Batch.discernible_pending (queued.distinct ids) queued.enlisted)
    (queued.distinct ids) queued.housed ran
  rwa [config, queued.tickets] at accounts

/-- If no list can have the length that the log is to keep, a batch with something to export fails. -/
theorem runBatch_unfit {o : Outcome (List Nat)} (queued : Queued c x added)
    (ids : (x.client.queue.items.map (·.id)).Nodup) (some : added ≠ []) (unfit : ¬ Batch.FitsLog c)
    (ran : (runBatch LocalEngine.engine none).run x = (o, y)) : ∃ f, o = .raised f := by
  obtain ⟨ran, -⟩ := runBatch_eq ran
  obtain ⟨s, hs⟩ := Settings.sanitize_record x.settings x.attachments.image.isSome
  have nobody : Batch.Attends (none : Option (ItemListener κ)) := fun _ _ => ⟨rfl, rfl⟩
  cases pending : x.client.queue.pending with
  | nil => exact absurd (queued.tickets.symm.trans (congrArg _ pending)) some
  | cons item rest =>
    obtain ⟨f, k, raised, -⟩ := Batch.render_unfit LocalEngine.engine x.probe
      (.ofString x.runner.config.outputDirectory) x.attachments nobody hs queued.idle (queued.distinct ids)
      (queued.config.symm ▸ unfit) pending
    cases raised.symm.trans ran
    exact ⟨f, rfl⟩

/-! ## A single file -/

theorem outputName_toList (stem : String) : (s!"processed_{stem}.mp4").toList =
    'p' :: 'r' :: ("ocessed_".toList ++ (stem.toList ++ ".mp4".toList)) := by
  simp [toString, String.toList_append]

theorem outputName_isEntry (video : String) :
    Path.IsEntry s!"processed_{(Path.ofString video).stem}.mp4" := by
  have letters := outputName_toList (Path.ofString video).stem
  refine Path.isEntry_of_letter letters (by decide) fun slash => ?_
  rw [letters, ← List.cons_append, ← List.cons_append] at slash
  rcases List.mem_append.1 slash with slash | slash
  · exact absurd slash (by decide)
  rcases List.mem_append.1 slash with slash | slash
  · exact Path.stem_plain video slash
  · exact absurd slash (by decide)

/-- The job that an exporter with the configuration `c` makes of a file. -/
structure Commissioned (c : Config) (path : Path) (r : JobRequest) : Prop where
  addressed : Job.Addressed r
  settings : ∃ s, Settings.sanitize r.settings r.attachments.image.isSome = .ok s
  output : r.output = (Path.ofString c.outputDirectory).child s!"processed_{path.stem}.mp4"

/-- The size of a source is found, or the export has failed. -/
theorem sourceSize_cases {path : Path} {o : Outcome Nat} (plain : Host.hasNull path.toString = false)
    (ran : (sourceSize (MediaFile.ofPath path)).run x = (o, y)) :
    (y = x ∧ ∃ n, o = .returned n ∧ (Host.size path.toString).run x.host = (.returned n, x.host)) ∨
      ∃ cause tail, o = .raised (.exportFailed cause tail) := by
  have asked {p : Outcome Nat} {u : Exporter LocalEngine κ} (hu : (liftM (MediaFile.ofPath path).size :
      Action (Exporter LocalEngine κ) Nat).run x = (p, u)) :
      u = x ∧ (Host.size path.toString).run x.host = (p, x.host) := by
    obtain ⟨j, lifted, rfl⟩ := Action.zoom_eq hu
    replace lifted : (Action.onHost (Host.size path.toString) : Action (Job LocalEngine (Desk κ)) Nat).run
      x.toJob = (p, j) := lifted
    obtain ⟨h, hh, rfl⟩ := Action.zoom_eq lifted
    obtain ⟨rfl, -⟩ := Host.size_cases hh
    exact ⟨rfl, hh⟩
  have faults {p : Outcome Nat} {h : Host} (hp : (Host.size path.toString).run x.host = (p, h)) :
      (∃ n, p = .returned n) ∨ ∃ f, p = .raised f ∧ f.isSystem = true := by
    obtain ⟨-, ⟨null, -⟩ | ⟨-, cases⟩⟩ := Host.size_cases hp
    · rw [plain] at null
      cases null
    · exact cases
  unfold sourceSize at ran
  rcases Action.attempt_bind_eq ran with ⟨n, u, hu, rest⟩ | ⟨f, u, hu, rest⟩ | ⟨hu, rfl⟩
  · obtain ⟨rfl, measured⟩ := asked hu
    cases rest
    exact .inl ⟨rfl, n, rfl, measured⟩
  · obtain ⟨rfl, refused⟩ := asked hu
    obtain ⟨_, ⟨⟩⟩ | ⟨_, ⟨⟩, system⟩ := faults refused
    dsimp only at rest
    rw [if_pos system] at rest
    cases rest
    exact .inr ⟨_, _, rfl⟩
  · obtain ⟨_, ⟨⟩⟩ | ⟨_, ⟨⟩, -⟩ := faults (asked hu).2

theorem drawRequest_run (video : String) (hexadecimal : x.host.Hexadecimal) : ∃ r y,
    (drawRequest (.ofString video)).run x = (.returned r, y) ∧
      Commissioned x.runner.config (.ofString video) r := by
  obtain ⟨h, draws, -⟩ := Host.drawItemId_run x.host
  have lifted : (liftM Host.drawItemId : Action (Exporter LocalEngine κ) String).run x =
      (.returned (x.host.itemId 0), { x with host := h }) :=
    congrArg (fun p : Outcome String × Host => (p.1, { x with host := p.2 })) draws
  have directory : (outputDirectory : Action (Exporter LocalEngine κ) Path).run { x with host := h } =
      (.returned (.ofString x.runner.config.outputDirectory), { x with host := h }) := rfl
  unfold drawRequest
  rw [Action.run_bind_of_returned (Action.run_get x), Action.run_bind_of_returned lifted,
    Action.run_bind_of_returned directory]
  refine ⟨_, _, rfl, ⟨Host.isItemId_of_drawn hexadecimal draws, video, rfl⟩,
    Settings.sanitize_record x.settings x.attachments.image.isSome, ?_⟩
  dsimp only

/-- No export is made of a path that no file can have. -/
theorem exportFile_null {path : Path} {listener : Option (ProgressListener (Desk κ))}
    (null : Host.hasNull path.toString = true) :
    (exportFile LocalEngine.engine path listener).run x = (.raised .nullCharacter, x) := by
  have asked : (liftM (MediaFile.ofPath path).size : Action (Exporter LocalEngine κ) Nat).run x =
      (.raised .nullCharacter, x) := by
    rcases hp : (Host.size path.toString).run x.host with ⟨p, h⟩
    have lifted : (liftM (MediaFile.ofPath path).size : Action (Exporter LocalEngine κ) Nat).run x =
        (p, { x with host := h }) :=
      congrArg (fun p : Outcome Nat × Host => (p.1, { x with host := p.2 })) hp
    obtain ⟨rfl, ⟨-, rfl⟩ | ⟨plain, -⟩⟩ := Host.size_cases hp
    · exact lifted
    · cases null.symm.trans plain
  have sized : (sourceSize (MediaFile.ofPath path)).run x = (.raised .nullCharacter, x) :=
    Action.run_bind_of_returned (Action.attempt_error.2 asked)
  have requested : (requestFor path).run x = (.raised .nullCharacter, x) := Action.run_bind_of_raised sized
  exact Action.run_bind_of_raised requested

/-- A job is made of a file, or the export has failed before. -/
theorem requestFor_ends {video : String} {o : Outcome JobRequest} (config : x.runner.config = c)
    (hexadecimal : x.host.Hexadecimal) (plain : Host.hasNull (Path.ofString video).toString = false)
    (small : ∀ n h, (Host.size (Path.ofString video).toString).run x.host = (.returned n, h) → n < 2 ^ 64)
    (ran : (requestFor (.ofString video)).run x = (o, y)) :
    (∃ cause tail, o = .raised (.exportFailed cause tail)) ∨
      ∃ r, o = .returned r ∧ Commissioned c (.ofString video) r := by
  -- what comes before the draw is written into the journal at most
  have drawn {l : Journal} (hd : (drawRequest (.ofString video)).run
      ({ x with host := { x.host with journal := l } } : Exporter LocalEngine κ) = (o, y)) :
      ∃ r, o = .returned r ∧ Commissioned c (.ofString video) r := by
    obtain ⟨r, z, drawn, commissioned⟩ :=
      drawRequest_run (x := { x with host := { x.host with journal := l } }) video hexadecimal
    cases drawn.symm.trans hd
    exact ⟨r, rfl, config ▸ commissioned⟩
  unfold requestFor at ran
  rcases Action.bind_eq ran with ⟨n, u, hu, rest⟩ | ⟨f, hu, rfl⟩ | ⟨hu, rfl⟩
  · obtain ⟨rfl, _, ⟨⟩, measured⟩ | ⟨_, _, ⟨⟩⟩ := sourceSize_cases plain hu
    obtain ⟨_, _, ⟨⟩, rest⟩ := Action.bind_total rest ⟨_, _, rfl⟩
    split at rest
    · obtain ⟨t, shown⟩ := Size.text_ok (small n _ measured) 2
      rw [shown] at rest
      exact .inr (drawn rest)
    · exact .inr (drawn rest)
  · obtain ⟨-, _, ⟨⟩, -⟩ | ⟨cause, tail, ⟨⟩⟩ := sourceSize_cases plain hu
    exact .inl ⟨cause, tail, rfl⟩
  · obtain ⟨-, _, ⟨⟩, -⟩ | ⟨_, _, ⟨⟩⟩ := sourceSize_cases plain hu

/-- The listener takes in all that it is told, and leaves the files alone. -/
def Listens (listener : Option (ProgressListener (Desk κ))) : Prop :=
  ∀ tell, listener = some tell → ∀ value c, ∃ d, (tell value).run c = (.returned (), d) ∧
    d.host.files = c.host.files

/-- The job of a file comes to writing its output, and the writing returns. -/
def Produces (path : Path) (listener : Option (ProgressListener (Desk κ))) (x : Exporter LocalEngine κ) :
    Prop :=
  ∃ r t s content w u, (requestFor path).run x = (.returned r, t) ∧
    Job.Writes LocalEngine.engine t.probe r listener s t.toJob content w u

variable {path : Path} {listener : Option (ProgressListener (Desk κ))} {o : Outcome JobResult}

theorem Listens.guests (listens : Listens listener) (S : HostFrame) (c : Config) :
    Guests S ((MediaProbe.ofConfig c).length : DurationProbe (Desk κ)) listener where
  probe path := ((MediaProbe.length_harmless _).files path).mono fun _ _ same => S.of_files same
  listener tell hl value c := by
    obtain ⟨d, ran, files⟩ := listens tell hl value c
    rw [ran]
    exact S.of_files files

theorem Listens.told (listens : Listens listener) : Job.TakesIn listener := by
  intro tell hl value c
  obtain ⟨d, ran, -⟩ := listens tell hl value c
  rw [ran]

/-- An export makes a job of the file and runs it. -/
theorem exportFile_eq (ran : (exportFile LocalEngine.engine path listener).run x = (o, y)) :
    (∃ r t k, (requestFor path).run x = (.returned r, t) ∧ t.engine = x.engine ∧
      t.runner.config = x.runner.config ∧
      (Job.run LocalEngine.engine t.probe r listener).run t.toJob = (o, k) ∧ y = { t with toJob := k }) ∨
    (∃ f, (requestFor path).run x = (.raised f, y) ∧ o = .raised f) ∨
      (requestFor path).run x = (.stalled, y) ∧ o = .stalled := by
  unfold exportFile at ran
  rcases Action.bind_eq ran with ⟨r, t, ht, rest⟩ | ⟨f, hf, rfl⟩ | ⟨hf, rfl⟩
  · obtain ⟨_, _, ⟨⟩, lifted⟩ := Action.bind_total rest ⟨_, _, rfl⟩
    obtain ⟨k, hk, rfl⟩ := Action.zoom_eq lifted
    have calm : calmly .any x t := (calmly_requestFor path).of_run ht
    exact .inl ⟨r, t, k, ht, calm.engine, calm.config, hk, rfl⟩
  · exact .inr (.inl ⟨f, hf, rfl⟩)
  · exact .inr (.inr ⟨hf, rfl⟩)

/-- An export returns exactly if its job writes its output. -/
theorem exportFile_returns_iff (listens : Listens listener) :
    (∃ result y, (exportFile LocalEngine.engine path listener).run x = (.returned result, y)) ↔
      Produces path listener x := by
  constructor
  · rintro ⟨result, y, ran⟩
    obtain ⟨r, t, k, ht, -, -, hk, -⟩ | ⟨_, -, ⟨⟩⟩ | ⟨-, ⟨⟩⟩ := exportFile_eq ran
    obtain ⟨s, content, w, u, writes⟩ :=
      (Job.returns_iff_writes LocalEngine.responds_delete listens.told).1 ⟨result, k, hk⟩
    exact ⟨r, t, s, content, w, u, ht, writes⟩
  · rintro ⟨r, t, s, content, w, u, ht, writes⟩
    obtain ⟨result, k, hk⟩ :=
      (Job.returns_iff_writes LocalEngine.responds_delete listens.told).2 ⟨s, content, w, u, writes⟩
    refine ⟨result, { t with toJob := k }, ?_⟩
    unfold exportFile
    rw [Action.run_bind_of_returned ht, Action.run_bind_of_returned (Action.run_get t)]
    exact congrArg (fun p : Outcome JobResult × Job LocalEngine (Desk κ) => (p.1, { t with toJob := p.2 })) hk

section
variable {video : String} (fresh : Fresh c x) (hexadecimal : x.host.Hexadecimal)
  (plain : Host.hasNull (Path.ofString video).toString = false)
  (small : ∀ n h, (Host.size (Path.ofString video).toString).run x.host = (.returned n, h) → n < 2 ^ 64)
include fresh hexadecimal plain small

/-- The export of a file has failed before there is a job, or it ends as its job does. -/
theorem exportFile_runs (ran : (exportFile LocalEngine.engine (.ofString video) listener).run x = (o, y)) :
    (∃ cause tail, o = .raised (.exportFailed cause tail)) ∨ ∃ r j k, Commissioned c (.ofString video) r ∧
      Housed j.engine ∧ j.runner.config = c ∧
      (Job.run LocalEngine.engine (MediaProbe.ofConfig c).length r listener).run j = (o, k) ∧
      y.toJob = k := by
  rcases exportFile_eq ran with ⟨r, t, k, ht, engine, config, hk, rfl⟩ | ⟨f, hf, rfl⟩ | ⟨hf, rfl⟩
  · obtain ⟨_, _, ⟨⟩⟩ | ⟨_, ⟨⟩, commissioned⟩ := requestFor_ends fresh.config hexadecimal plain small ht
    have config : t.runner.config = c := config.trans fresh.config
    unfold probe at hk
    rw [config] at hk
    exact .inr ⟨r, t.toJob, k, commissioned, engine ▸ fresh.housed, config, hk, rfl⟩
  · obtain ⟨cause, tail, ⟨⟩⟩ | ⟨_, ⟨⟩, -⟩ := requestFor_ends fresh.config hexadecimal plain small hf
    exact .inl ⟨cause, tail, rfl⟩
  · obtain ⟨_, _, ⟨⟩⟩ | ⟨_, ⟨⟩, -⟩ := requestFor_ends fresh.config hexadecimal plain small hf

/-- An export fails with a report of that, if a list can have the length that the log is to keep. -/
theorem exportFile_raised {f : Failure} (fits : Batch.FitsLog c) (listens : Listens listener)
    (ran : (exportFile LocalEngine.engine (.ofString video) listener).run x = (.raised f, y)) :
    ∃ cause tail, f = .exportFailed cause tail := by
  obtain ⟨cause, tail, ⟨⟩⟩ | ⟨r, j, k, commissioned, -, config, hk, -⟩ :=
    exportFile_runs fresh hexadecimal plain small ran
  · exact ⟨cause, tail, rfl⟩
  · obtain ⟨s, hs⟩ := commissioned.settings
    cases Job.ending_of_run hk nofun with
    | refused why => exact absurd why (Batch.not_refused (config ▸ fits) hs)
    | @failed _ _ _ _ cause tail => exact ⟨cause, tail, rfl⟩
    | @untold _ _ t _ _ _ _ _ failed =>
      obtain ⟨u, announced⟩ := Job.announceDone_returns (r := r) listens.told t
      cases announced.symm.trans failed

/-- An export does not come to a job, if no list can have the length that the log is to keep. -/
theorem exportFile_unfit (unfit : ¬ Batch.FitsLog c)
    (ran : (exportFile LocalEngine.engine (.ofString video) listener).run x = (o, y)) :
    ∃ f, o = .raised f := by
  obtain ⟨cause, tail, rfl⟩ | ⟨r, j, k, -, -, config, hk, -⟩ :=
    exportFile_runs fresh hexadecimal plain small ran
  · exact ⟨_, rfl⟩
  · obtain ⟨f, -, raised⟩ | ⟨s, i, begins⟩ := Job.refused_or_begins LocalEngine.engine
      (MediaProbe.ofConfig c).length r listener j
    · cases raised.symm.trans hk
      exact ⟨f, rfl⟩
    · exact absurd (config ▸ Batch.fitsLog_of_begins begins) unfit

/-- An export that never ends waits for the probe of a source, if the limits are in force. -/
theorem exportFile_stalled (responsive : LocalEngine.engine.Responsive c) (listens : Listens listener)
    (ran : (exportFile LocalEngine.engine (.ofString video) listener).run x = (.stalled, y)) :
    ((MediaProbe.ofConfig c).length : DurationProbe (Desk κ)).Hangs y.host := by
  obtain ⟨_, _, ⟨⟩⟩ | ⟨r, j, k, -, -, config, hk, rfl⟩ := exportFile_runs fresh hexadecimal plain small ran
  obtain ⟨d, e, hangs, host⟩ := Job.run_stalled (config ▸ responsive) (fun tell hl value c stalled =>
    nomatch (listens.told tell hl value c).symm.trans stalled) hk
  exact ⟨_, d, e, hangs, host⟩

/-- An export that returns has delivered its output, which is not too small. -/
theorem exportFile_delivers {result : JobResult} (listens : Listens listener)
    (lasting : ∀ n, Host.temporaryName n ∉ (Path.ofString c.outputDirectory).parts)
    (ran : (exportFile LocalEngine.engine (.ofString video) listener).run x = (.returned result, y)) :
    result.output = (Path.ofString c.outputDirectory).child
        s!"processed_{(Path.ofString video).stem}.mp4" ∧
      ∃ f, Keeping result.output.toString f y.toWorld ∧
        (Number.int f.content.size).lt c.minOutput = false := by
  obtain ⟨_, _, ⟨⟩⟩ | ⟨r, j, k, commissioned, housed, config, hk, rfl⟩ :=
    exportFile_runs fresh hexadecimal plain small ran
  have outlet : Job.IsOutlet r.output.toString := by
    rw [commissioned.output]
    exact Job.isOutlet_child lasting (outputName_isEntry video) (outputName_toList _)
  obtain ⟨output, f, kept, size, large⟩ :=
    Job.run_delivers commissioned.addressed outlet (listens.guests _ c) hk housed
  rw [output]
  exact ⟨commissioned.output, f, kept, size ▸ config ▸ large⟩

end

end Exporter

end VideoExport
