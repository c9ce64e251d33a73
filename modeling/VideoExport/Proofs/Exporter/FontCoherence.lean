import VideoExport.Proofs.Exporter.Life
import VideoExport.Proofs.Job.FontMemory

/-!
# The font over the life of an exporter

The runner of an exporter remembers the key of the font in working storage. Whatever the exporter is
asked, the font that was last put there has this key (`coherent_life`). The entry itself is lost when
the exporter is closed, for `close` resets the engine and the runner goes on remembering: a later job
with the same font then finds it without writing it (`closed_exporter_lacks_font`). Without `close`,
a job that found its font executes its command with the font in place
(`font_in_place_unless_closed`).
-/

set_option autoImplicit false

namespace VideoExport.Exporter

variable {σ κ : Type}

/-! ## Batches -/

section
variable {S : HostFrame} {listener : Option (ItemListener κ)}

/-- Whoever listens to the items of a batch changes the host within `S`. -/
def Told (S : HostFrame) (listener : Option (ItemListener κ)) : Prop :=
  ∀ tell, listener = some tell → ∀ item, (tell item).Follows (S.toEvolution.on Caller.host)

theorem follows_notify (told : Told S listener) (ticket : Nat) :
    (Batch.notify listener ticket).Follows (S.toEvolution.on Caller.host) := by
  refine .bind (.read _) fun q => ?_
  split
  · exact told _ rfl _
  · exact .pure _

theorem follows_updateQueue (f : Queue → Queue) :
    (Batch.updateQueue f : Action (Caller (Desk κ)) Unit).Follows
      (S.toEvolution.on Caller.host) := .modify fun _ => S.refl _

theorem follows_announce (told : Told S listener) (item : QueueItem) :
    (Batch.announce listener item).Follows (S.toEvolution.on Caller.host) :=
  .bind (follows_updateQueue _) fun _ => follows_notify told _

theorem follows_settle (item : QueueItem) : ∀ o : Except Failure JobResult,
    (Batch.settle item o : Action (Caller (Desk κ)) Unit).Follows (S.toEvolution.on Caller.host)
  | .ok _ => follows_updateQueue _
  | .error f => by
    cases f with
    | exportFailed cause tail => exact follows_updateQueue _
    | _ => exact .raise _

/-- Those who take part in the jobs of a batch, given those who take part in the batch. -/
theorem bystanders_item {probe : DurationProbe (Desk κ)} {output : Path}
    (outside : Bystanders S probe none output) (told : Told S listener) (item : QueueItem) :
    Bystanders S probe (some (Batch.onProgress listener item)) output where
  probe := outside.probe
  listener := by
    rintro _ ⟨⟩ value
    exact .bind (follows_updateQueue _) fun _ => follows_notify told _
  directory := outside.directory
  file := outside.file

end

section
variable {e : Engine σ} {v : StorageView e} {lost : Prop} {probe : DurationProbe (Desk κ)}
  {directory : Path} {settings : Settings} {attachments : Attachments}
  {listener : Option (ItemListener κ)}

theorem preserves_calm {α : Type} (durable : v.Durable)
    {x : Action (Job (Recorded σ) (Desk κ)) α} (h : x.Follows (Job.calm v.spares)) :
    x.Preserves (Job.Coherent v lost) := h.preserves fun _ _ calm h => h.calm durable calm

theorem preserves_renderItem (durable : v.Durable)
    (outside : ∀ name, Bystanders v.spares probe none (directory.child name))
    (told : Told v.spares listener) (item : QueueItem) :
    (Batch.renderItem e.recorded probe directory settings attachments listener item).Preserves
      (Job.Coherent v lost) := by
  refine .bind (preserves_calm durable (Job.calm_caller (follows_announce told item))) fun _ =>
    .bind (Action.Preserves.attempt fun j o k h ran ends => ?_) fun o =>
    .bind (preserves_calm durable (Job.calm_caller (follows_settle item o))) fun _ =>
      preserves_calm durable (Job.calm_caller (follows_notify told _))
  exact h.run durable (bystanders_item (outside _) told item) ran ends

theorem preserves_renderItems (durable : v.Durable)
    (outside : ∀ name, Bystanders v.spares probe none (directory.child name))
    (told : Told v.spares listener) (total : Nat) : ∀ (position : Nat) (items : List QueueItem),
    (Batch.renderItems e.recorded probe directory settings attachments listener total position
      items).Preserves (Job.Coherent v lost)
  | _, [] => preserves_calm durable (.pure _)
  | _, item :: rest =>
    .bind (preserves_calm durable (Job.calm_host ((Host.follows_log _ _ _).of_files _))) fun _ =>
    .bind (preserves_renderItem durable outside told item) fun _ =>
      preserves_renderItems durable outside told total _ rest

theorem preserves_render (durable : v.Durable)
    (outside : ∀ name, Bystanders v.spares probe none (directory.child name))
    (told : Told v.spares listener) (raw : Raw) :
    (Batch.render e.recorded probe directory raw attachments listener).Preserves
      (Job.Coherent v lost) := by
  have logged {level : Level} {source message : String} :
      (liftM (Host.log level source message) : Action (Job (Recorded σ) (Desk κ)) Unit).Preserves
        (Job.Coherent v lost) :=
    preserves_calm durable (Job.calm_host ((Host.follows_log _ _ _).of_files _))
  have marked (busy : Bool) : (liftM (Batch.setBusy busy : Action (Caller (Desk κ)) Unit) :
      Action (Job (Recorded σ) (Desk κ)) Unit).Preserves (Job.Coherent v lost) :=
    preserves_calm durable (Job.calm_caller (.modify fun _ => v.spares.refl _))
  have asked : (Batch.begin? : Action (Caller (Desk κ)) Bool).Follows
      (v.spares.toEvolution.on Caller.host) := by
    refine .bind (.read _) fun _ => .ite (.bind ?_ fun _ => .pure _) (.pure _)
    exact .zoom ((Host.follows_log _ _ _).of_files v.spares) fun _ _ h => h
  refine .bind (preserves_calm durable (Job.calm_caller asked)) fun begun => ?_
  refine .ite (preserves_calm durable (.pure _)) ?_
  refine .bind (preserves_calm durable (.ofNumeric _)) fun snapshot => .bind (marked true) fun _ =>
    .bind (.ensuring ?_ (marked false)) fun _ => .bind (preserves_calm durable (.read _)) fun _ =>
      .bind logged fun _ => preserves_calm durable (.pure _)
  exact .bind (preserves_calm durable (.read _)) fun _ => .bind logged fun _ =>
    .bind (preserves_renderItems durable outside told _ _ _) fun _ => preserves_calm durable (.pure _)

end

/-! ## Operations -/

section
variable {e : Engine σ} {v : StorageView e} {lost : Prop} {x y : Exporter (Recorded σ) κ}

theorem coherent_calmly (durable : v.Durable) (h : x.toJob.Coherent v lost)
    (calm : calmly v.spares x y) : y.toJob.Coherent v lost := h.calm durable calm

theorem coherent_exportFile (durable : v.Durable) (h : x.toJob.Coherent v lost) {path : Path}
    {listener : Option (ProgressListener (Desk κ))}
    (outside : ∀ name, Bystanders v.spares x.probe listener (x.outputPath name))
    {o : Outcome JobResult} (ran : (exportFile e.recorded path listener).run x = (o, y))
    (ends : o ≠ .stalled) : y.toJob.Coherent v lost := by
  have requested {p : Outcome JobRequest} {z : Exporter (Recorded σ) κ}
      (hz : (requestFor path).run x = (p, z)) : calmly v.spares x z :=
    (calmly_requestFor path).of_run hz
  rcases Action.bind_eq ran with ⟨r, z, hz, ran⟩ | ⟨f, hz, -⟩ | ⟨-, rfl⟩
  · obtain ⟨_, _, ⟨⟩, ran⟩ := Action.bind_total ran ⟨_, _, Action.run_get z⟩
    obtain ⟨name, output⟩ := requestFor_output hz
    obtain ⟨k, hk, rfl⟩ := Action.zoom_eq ran
    have config : z.runner.config = x.runner.config := (requested hz).config
    refine (coherent_calmly durable h (requested hz)).run durable ?_ hk ends
    have same : z.probe = x.probe := by
      unfold probe
      rw [config]
    rw [output, same]
    exact outside name
  · exact coherent_calmly durable h (requested hz)
  · exact absurd rfl ends

theorem coherent_runBatch (durable : v.Durable) (h : x.toJob.Coherent v lost)
    {listener : Option (ItemListener κ)}
    (outside : ∀ name, Bystanders v.spares x.probe none (x.outputPath name))
    (told : Told v.spares listener) {o : Outcome (List Nat)}
    (ran : (runBatch e.recorded listener).run x = (o, y)) (ends : o ≠ .stalled) :
    y.toJob.Coherent v lost := by
  obtain ⟨_, _, ⟨⟩, ran⟩ := Action.bind_total ran ⟨_, _, Action.run_get x⟩
  obtain ⟨_, _, ⟨⟩, ran⟩ := Action.bind_total ran ⟨_, _, rfl⟩
  obtain ⟨k, hk, rfl⟩ := Action.zoom_eq ran
  exact preserves_render durable outside told _ x.toJob o k h hk ends

/-- Closing an exporter resets its engine, and the runner goes on remembering the font. -/
theorem coherent_close (durable : v.Durable) (h : x.toJob.Coherent v lost) {o : Outcome Unit}
    (ran : (close e.recorded).run x = (o, y)) : y.toJob.Coherent v True := by
  obtain ⟨w, hw, rfl⟩ : ∃ w, e.recorded.reset.run x.toWorld = (o, w) ∧
      y = { x with toWorld := w } := by
    cases ran
    exact ⟨_, rfl, rfl⟩
  obtain ⟨c, reset, -, span⟩ := Span.recorded (S := v.spares) hw (.reset _)
  refine (h.mono fun _ => trivial).extend durable span (fun d hd _ => ?_) rfl
    fun kept => absurd trivial kept
  rw [List.mem_singleton.1 hd]
  exact .inl reset

theorem coherent_operation (durable : v.Durable) (h : x.toJob.Coherent v lost) {op : Operation κ}
    (innocent : op.Innocent v.spares x) {o : Outcome Unit}
    (ran : (op.run e.recorded).run x = (o, y)) (ends : o ≠ .stalled) :
    y.toJob.Coherent v (lost ∨ op = .close) := by
  by_cases uses : op.UsesEngine
  · cases op with
    | exportFile path listener =>
      refine Job.Coherent.mono ?_ .inl
      rcases Action.bind_eq ran with ⟨_, z, hz, ran⟩ | ⟨f, hz, -⟩ | ⟨-, rfl⟩
      · cases ran
        exact coherent_exportFile durable h innocent hz nofun
      · exact coherent_exportFile durable h innocent hz nofun
      · exact absurd rfl ends
    | runBatch listener =>
      refine Job.Coherent.mono ?_ .inl
      rcases Action.bind_eq ran with ⟨_, z, hz, ran⟩ | ⟨f, hz, -⟩ | ⟨-, rfl⟩
      · cases ran
        exact coherent_runBatch durable h innocent.1 innocent.2 hz nofun
      · exact coherent_runBatch durable h innocent.1 innocent.2 hz nofun
      · exact absurd rfl ends
    | close => exact (coherent_close durable h ran).mono fun _ => .inr rfl
    | _ => exact absurd uses id
  · exact (coherent_calmly durable h ((calmly_run _ uses).of_run ran)).mono .inl

/-- Over the life of an exporter, the font that was last put into working storage has the key that is
remembered, and without `close`, the engine has not been reset since unless it is to be reset. -/
theorem coherent_life (durable : v.Durable) {host : Host} {engine : Recorded σ} {c : Config}
    {client : κ} {ops : List (Operation κ)} (life : Life e v (.ofConfig host engine c client) ops y) :
    y.toJob.Coherent v (.close ∈ ops) := by
  induction life with
  | start => exact fun _ => nofun
  | pause _ runner steps font ih =>
    intro key loaded
    rw [runner] at loaded
    obtain ⟨since, hs, unreset⟩ := ih key loaded
    refine ⟨since, ⟨?_, hs.spared, ?_, ?_⟩, ?_⟩
    · obtain ⟨t, u, provided, record⟩ := hs.provided
      exact ⟨t, u, provided, steps.trans record⟩
    · rw [font]
      exact hs.present
    · rw [font]
      exact hs.absent
    · rw [runner]
      exact unreset
  | act _ innocent ran ends ih =>
    refine (coherent_operation durable ih innocent ran ends).mono ?_
    rintro (h | rfl)
    · exact List.mem_append_left _ h
    · exact List.mem_append_right _ (.head _)

/-- When a job starts, what is known of the font is as before the operation. -/
theorem coherent_starts (durable : v.Durable) (h : x.toJob.Coherent v lost) {op : Operation κ}
    (innocent : op.Innocent v.spares x) {r : JobRequest} {j : Job (Recorded σ) (Desk κ)}
    (starts : Starts e.recorded x op r j) : j.Coherent v lost := by
  cases starts with
  | exportFile requested =>
    exact coherent_calmly durable h ((calmly_requestFor _).of_run requested)
  | runBatch idle settings items begun through announced =>
    obtain ⟨outside, told⟩ := innocent
    have logged {level : Level} {source message : String} :
        (liftM (Host.log level source message) : Action (Job (Recorded σ) (Desk κ)) Unit).Follows
          (Job.calm v.spares) := Job.calm_host ((Host.follows_log _ _ _).of_files _)
    have marked : (liftM (Batch.setBusy true : Action (Caller (Desk κ)) Unit) :
        Action (Job (Recorded σ) (Desk κ)) Unit).Follows (Job.calm v.spares) :=
      Job.calm_caller (.modify fun _ => v.spares.refl _)
    have begun' := h.calm durable (Action.Follows.of_run (.bind marked fun _ => logged) begun)
    have through' := preserves_renderItems durable outside told _ _ _ _ _ _ begun' through nofun
    refine through'.calm durable (Action.Follows.of_run (.bind logged fun _ => ?_) announced)
    exact Job.calm_caller (follows_announce told _)

/-- A job with a text in its video has seen to its font at `a`, which then was there, and has come to
executing its command at `m`. -/
def ShowsText {σ : Type} (e : Engine σ) (y : Exporter σ κ) (op : Operation κ) (r : JobRequest)
    (a m : Job σ (Desk κ)) : Prop :=
  ∃ j s d b arguments, Starts e y op r j ∧ Job.Readies e y.probe r s j d a ∧
    s.text.content.isEmpty = false ∧
    (Job.ensureFont e r.attachments.font).run a = (.returned true, b) ∧
    (Job.lead e r s d).run b = (.returned arguments, m)

/-- When a job with a text executes its command after it has found its font, the font that was last
put into working storage was put there for a font of the same key. It is still there if the engine
has not been reset since, as in any life without `close`, and it is gone if a reset was the last to
concern it. -/
theorem font_in_place_unless_closed (durable : v.Durable) {host : Host} {engine : Recorded σ}
    {c : Config} {client : κ} {ops : List (Operation κ)}
    (life : Life e v (.ofConfig host engine c client) ops y) :
    ∀ op r a m, op.Innocent v.spares y → ShowsText e.recorded y op r a m →
      ∃ key w w' since, FontLoader.HasKey a.host r.attachments.font key ∧
        FontLoader.Provides e key w w' ∧ m.engine.steps = w'.engine.steps ++ since ∧
        (∀ c ∈ since, ¬ c.PutsFont) ∧
        ((∀ c ∈ since, c.act ≠ .reset) → v.entry m.bare fontEntry ≠ none) ∧
        (FontDropped since → v.entry m.bare fontEntry = none) ∧
        (.close ∉ ops → v.entry m.bare fontEntry ≠ none) := by
  rintro op r a m innocent ⟨j, s, d, b, arguments, starts, readies, -, found, led⟩
  have coherent := coherent_starts durable (coherent_life durable life) innocent starts
  obtain ⟨listener, output, hb⟩ : ∃ listener output, Bystanders v.spares y.probe listener output := by
    cases starts with
    | exportFile _ => exact ⟨_, _, innocent ""⟩
    | runBatch _ _ _ _ _ _ => exact ⟨none, _, innocent.1 ""⟩
  obtain ⟨key, since, hkey, hs, unreset⟩ := coherent.executes durable hb readies found led
  obtain ⟨w, w', provided, steps⟩ := hs.provided
  exact ⟨key, w, w', since, hkey, provided, steps, fun c hc => (hs.spared c hc).not_puts,
    hs.present, hs.absent, fun open' => hs.present (unreset open')⟩

end

/-! ## A closed exporter -/

/-- Where a single export sees to its font, and where it executes its command, if it comes to that
with a text and a font. -/
def showText? (e : Engine σ) (y : Exporter σ κ) (path : Path) :
    Option (JobRequest × Job σ (Desk κ) × Job σ (Desk κ)) :=
  match (requestFor path).run y with
  | (.returned r, z) =>
    match Settings.sanitize r.settings r.attachments.image.isSome,
      (z.runner.config.logBuffer.mapM Job.checkLength).map fun _ => () with
    | .ok s, .ok () =>
      if s.text.content.isEmpty then none
      else match (Job.ready e y.probe r s).run ((Job.begin r).run z.toJob).2 with
        | (.returned d, a) =>
          match (Job.ensureFont e r.attachments.font).run a with
          | (.returned true, b) =>
            match (Job.lead e r s d).run b with
            | (.returned _, m) => some (r, a, m)
            | _ => none
          | _ => none
        | _ => none
    | _, _ => none
  | _ => none

theorem showsText_of_some {e : Engine σ} {y : Exporter σ κ} {path : Path}
    {listener : Option (ProgressListener (Desk κ))} {r : JobRequest} {a m : Job σ (Desk κ)}
    (h : showText? e y path = some (r, a, m)) :
    ShowsText e y (.exportFile path listener) r a m := by
  unfold showText? at h
  split at h
  · rename_i r' z requested
    split at h
    · rename_i s settings limit
      split at h
      · cases h
      · rename_i text
        split at h
        · rename_i d a' readied
          split at h
          · rename_i b found
            split at h
            · rename_i arguments m' led
              cases h
              exact ⟨_, s, d, b, arguments, .exportFile requested,
                ⟨_, ⟨settings, limit, rfl⟩, readied⟩, Bool.eq_false_iff.2 text, found, led⟩
            · cases h
          · cases h
        · cases h
    · cases h
  · cases h

/-- A host with a video and a font. -/
def videoAndFont : Host :=
  ((do
    Host.writeFile "clip.mp4" ⟨#[0]⟩
    Host.writeFile "font.ttf" ⟨#[1]⟩ : Action Host Unit).run {}).2

/-- A new exporter with an engine in memory and a default font. -/
def newExporter : Exporter (Recorded MemoryEngine) Unit :=
  .ofConfig videoAndFont { engine := {} }
    { loadLimit := 0, renderLimit := 0, fontPath := some "font.ttf" } ()

/-- The operations that show a text in all videos, export one of them, and close the exporter. -/
def showText : Operation Unit := .update [("watermark_text", .text "x")]

def exportClip : Operation Unit := .exportFile (.ofString "clip.mp4") none

/-- What an exporter with an engine in memory becomes. -/
def after (op : Operation Unit) (x : Exporter (Recorded MemoryEngine) Unit) :
    Exporter (Recorded MemoryEngine) Unit := ((op.run MemoryEngine.engine.recorded).run x).2

theorem life_after {ops : List (Operation Unit)} {op : Operation Unit}
    {x y : Exporter (Recorded MemoryEngine) Unit}
    (life : Life MemoryEngine.engine MemoryEngine.storage x ops y)
    (innocent : op.Innocent MemoryEngine.storage.spares y)
    (ends : ((op.run MemoryEngine.engine.recorded).run y).1.ended = true) :
    Life MemoryEngine.engine MemoryEngine.storage x (ops ++ [op]) (after op y) :=
  .act life innocent (Prod.eta ((op.run MemoryEngine.engine.recorded).run y)).symm
    (Outcome.ne_stalled ends)

theorem innocent_exportClip (x : Exporter (Recorded MemoryEngine) Unit) :
    exportClip.Innocent MemoryEngine.storage.spares x :=
  fun _ => .of_all MemoryEngine.storage_spares _ _ _

theorem life_exported : Life MemoryEngine.engine MemoryEngine.storage newExporter
    [showText, exportClip] (after exportClip (after showText newExporter)) := by
  have titled : Life MemoryEngine.engine MemoryEngine.storage newExporter [showText]
      (after showText newExporter) := life_after .start trivial (by decide +kernel)
  exact life_after titled (innocent_exportClip _) (by decide +kernel)

theorem font_in_place_at_second_export :
    ∃ r a m, ShowsText MemoryEngine.engine.recorded (after exportClip (after showText newExporter))
        exportClip r a m ∧
      MemoryEngine.storage.entry m.bare fontEntry ≠ none := by
  have reached : (showText? MemoryEngine.engine.recorded
      (after exportClip (after showText newExporter)) (.ofString "clip.mp4")).isSome = true := by
    decide +kernel
  obtain ⟨⟨r, a, m⟩, h⟩ := Option.isSome_iff_exists.1 reached
  obtain ⟨_, _, _, _, -, -, -, -, -, -, present⟩ := font_in_place_unless_closed
    MemoryEngine.durable life_exported exportClip r a m (innocent_exportClip _)
    (showsText_of_some h)
  refine ⟨r, a, m, showsText_of_some h, present fun closed => ?_⟩
  rcases List.mem_cons.1 closed with h | closed
  · cases h
  · cases List.mem_singleton.1 closed

/-- A closed exporter remembers a font that is gone: a job with a text finds its font and executes its
command without it. -/
theorem closed_exporter_lacks_font :
    ∃ y r a m, Life MemoryEngine.engine MemoryEngine.storage newExporter
        [showText, exportClip, .close] y ∧
      exportClip.Innocent MemoryEngine.storage.spares y ∧
      ShowsText MemoryEngine.engine.recorded y exportClip r a m ∧
      MemoryEngine.storage.entry m.bare fontEntry = none := by
  let y := after .close (after exportClip (after showText newExporter))
  have life : Life MemoryEngine.engine MemoryEngine.storage newExporter
      [showText, exportClip, .close] y := life_after life_exported trivial (by decide +kernel)
  have gone : ((showText? MemoryEngine.engine.recorded y (.ofString "clip.mp4")).map
      fun p => p.2.2.engine.engine.files.lookup fontEntry) = some none := by
    decide +kernel
  obtain ⟨⟨r, a, m⟩, shown, absent⟩ := Option.map_eq_some_iff.1 gone
  exact ⟨y, r, a, m, life, innocent_exportClip y, showsText_of_some shown, absent⟩

end VideoExport.Exporter
