import VideoExport.Engine.Memory
import VideoExport.Proofs.Compilation
import VideoExport.Proofs.Exporter.Life

/-!
# The settings of an exporter

Whatever is asked of an exporter, its settings are sanitized for whether an image is attached
(`Settled`): each operation keeps this, and one that fails leaves the settings and the attached files as
they were (`Operation.run_settled`). So they are what every export and every batch compiles with
(`settings_settled`).
-/

set_option autoImplicit false

namespace VideoExport

namespace Settings

theorem default_settled (hasImage : Bool) : default.resanitize hasImage = .ok default := by
  cases hasImage <;> decide +kernel

/-- The image watermark can be turned on and off whatever the settings are: their texts are texts
already. -/
theorem change_imageEnabled (s : Settings) (on hasImage : Bool) :
    ∃ s', change s.record [("watermark_image_enabled", .bool on)] hasImage = .ok s' := by
  let draft := Draft.ofEntries (merged s.record [("watermark_image_enabled", .bool on)])
  have content : draft.text .textContent "" = .ok s.text.content := rfl
  have family : draft.text .textFontFamily "Arial" = .ok s.text.fontFamily := rfl
  have named : checkNames "update_settings" ["current", "has_watermark_image"]
      [("watermark_image_enabled", .bool on)] = .ok () := rfl
  unfold change update ofDraft
  rw [named]
  simp only [draft] at content family
  simp only [content, family]
  exact ⟨_, rfl⟩

theorem change_settled {current : Record} {changes : Changes} {hasImage : Bool} {s : Settings}
    (h : change current changes hasImage = .ok s) : s.resanitize hasImage = .ok s := by
  obtain ⟨_, -, h⟩ := Number.bind_ok h
  cases hu : update current changes hasImage <;> rw [hu] at h <;> cases h
  exact ofDraft_again hu

end Settings

namespace Exporter

variable {σ κ : Type} {e : Engine σ} {x y : Exporter σ κ} {o : Outcome Unit} {s : Settings}

/-! ## Operations on the settings -/

/-- The settings are sanitized for whether an image is attached. -/
def Settled (x : Exporter σ κ) : Prop :=
  x.settings.resanitize x.attachments.image.isSome = .ok x.settings

/-- The image watermark is on only where an image is attached. -/
theorem Settled.attached (h : x.Settled) (on : x.settings.image.enabled = true) :
    x.attachments.image.isSome = true := by
  obtain ⟨-, -, enabled⟩ := Settings.ofDraft_others h
  rw [on] at enabled
  exact (Bool.and_eq_true_iff.1 enabled.symm).1

/-- The settings and the attached files stay. -/
def keepsSettings : Evolution (Exporter σ κ) := .same fun x => (x.settings, x.attachments)

theorem keepsSettings_job {α : Type} (x : Action (Job σ (Desk κ)) α) :
    (liftM x : Action (Exporter σ κ) α).Follows keepsSettings :=
  .zoom (F := .any) (.any x) fun _ _ _ => rfl

theorem keepsSettings_host {α : Type} (x : Action Host α) :
    (liftM x : Action (Exporter σ κ) α).Follows keepsSettings := keepsSettings_job _

/-- A change puts other settings in the place of the old ones, or it fails and leaves all as it was. -/
theorem update_cases {changes : Settings.Changes} (h : (update changes).run x = (o, y)) :
    (∃ f, o = .raised f ∧ y = x) ∨ ∃ s,
      Settings.change x.settings.record changes x.attachments.image.isSome = .ok s ∧
        o = .returned () ∧ y = { x with settings := s } := by
  rcases Action.bind_eq h with ⟨_, x', checked, h⟩ | ⟨f, checked, rfl⟩ | ⟨checked, rfl⟩
  · rw [(Action.ofExcept_eq checked).1] at h
    obtain ⟨_, _, ⟨⟩, h⟩ := Action.bind_total h ⟨_, _, rfl⟩
    obtain ⟨_, _, ⟨⟩, h⟩ := Action.bind_total h ⟨_, _, rfl⟩
    rcases Action.bind_eq h with ⟨s, z, changed, h⟩ | ⟨f, changed, rfl⟩ | ⟨changed, rfl⟩
    · obtain ⟨same, ⟨_, hs, ⟨⟩⟩ | ⟨_, -, ⟨⟩⟩⟩ := Action.ofExcept_eq changed
      rw [same] at h
      cases h
      exact .inr ⟨s, hs, rfl, rfl⟩
    · exact .inl ⟨f, rfl, (Action.ofExcept_eq changed).1⟩
    · obtain ⟨-, ⟨_, -, ⟨⟩⟩ | ⟨_, -, ⟨⟩⟩⟩ := Action.ofExcept_eq changed
  · exact .inl ⟨f, rfl, (Action.ofExcept_eq checked).1⟩
  · obtain ⟨-, ⟨_, -, ⟨⟩⟩ | ⟨_, -, ⟨⟩⟩⟩ := Action.ofExcept_eq checked

theorem setSettings_cases {raw : Raw} (h : (setSettings raw).run x = (o, y)) :
    (∃ f, o = .raised f ∧ y = x) ∨ ∃ s,
      Settings.sanitize raw x.attachments.image.isSome = .ok s ∧
        o = .returned () ∧ y = { x with settings := s } := by
  obtain ⟨_, _, ⟨⟩, h⟩ := Action.bind_total h ⟨_, _, rfl⟩
  rcases Action.bind_eq h with ⟨s, z, sanitized, h⟩ | ⟨f, sanitized, rfl⟩ | ⟨sanitized, rfl⟩
  · obtain ⟨same, ⟨_, hs, ⟨⟩⟩ | ⟨_, ⟨⟩⟩⟩ := Action.ofNumeric_eq sanitized
    rw [same] at h
    cases h
    exact .inr ⟨s, hs, rfl, rfl⟩
  · exact .inl ⟨f, rfl, (Action.ofNumeric_eq sanitized).1⟩
  · obtain ⟨-, ⟨_, -, ⟨⟩⟩ | ⟨_, ⟨⟩⟩⟩ := Action.ofNumeric_eq sanitized

/-- To attach an image never fails, nor does it to take one away. -/
theorem attachImage_run {image : Option MediaFile} (h : (attachImage image).run x = (o, y)) : ∃ s,
    s.resanitize image.isSome = .ok s ∧ o = .returned () ∧
      y = { x with settings := s, attachments := { x.attachments with image } } := by
  obtain ⟨_, _, ⟨⟩, h⟩ := Action.bind_total h ⟨_, _, rfl⟩
  rcases update_cases h with ⟨f, rfl, rfl⟩ | ⟨s, hs, rfl, rfl⟩
  · obtain ⟨s, hs⟩ := Settings.change_imageEnabled x.settings image.isSome image.isSome
    have returned : (update [("watermark_image_enabled", .bool image.isSome)]).run
        { x with attachments := { x.attachments with image } } =
          (Action.ofExcept (.ok s) >>= putSettings).run
            { x with attachments := { x.attachments with image } } := by
      rw [← hs]
      rfl
    exact nomatch h.symm.trans returned
  · exact ⟨s, Settings.change_settled hs, rfl, rfl⟩

theorem keepsSettings_sourceSize (source : MediaFile) :
    (sourceSize source : Action (Exporter σ κ) Nat).Follows keepsSettings := by
  refine .bind (keepsSettings_host _).attempt fun o => ?_
  match o with
  | .ok _ => exact .pure _
  | .error _ => exact .ite (.bind (keepsSettings_host _) fun _ => .raise _) (.raise _)

theorem keepsSettings_requestFor (path : Path) :
    (requestFor path : Action (Exporter σ κ) JobRequest).Follows keepsSettings := by
  have drawn : (drawRequest path : Action (Exporter σ κ) JobRequest).Follows keepsSettings :=
    .bind .get fun _ => .bind (keepsSettings_host _) fun _ =>
      .bind (.bind (.read _) fun _ => .pure _) fun _ => .pure _
  refine .bind (keepsSettings_sourceSize _) fun _ => .bind (.read _) fun _ => ?_
  dsimp only
  split
  · exact .bind (.ofExcept _) fun _ => .bind (keepsSettings_host _) fun _ => drawn
  · exact drawn

/-- What has to do neither with the settings nor with the attached files leaves both as they are. -/
theorem Operation.keepsSettings_run (e : Engine σ) {op : Operation κ}
    (h : match op with
      | .update _ | .setSettings _ | .resetSettings | .attachImage _ | .attachFont _ => False
      | _ => True) : (op.run e).Follows keepsSettings := by
  cases op with
  | exportFile path listener =>
    exact .bind (.bind (keepsSettings_requestFor path) fun _ => .bind .get fun _ =>
      keepsSettings_job _) fun _ => .pure _
  | enqueue paths => exact .bind (keepsSettings_job _) fun _ => .pure _
  | runBatch listener =>
    exact .bind (.bind .get fun _ => .bind (.bind (.read _) fun _ => .pure _) fun _ =>
      keepsSettings_job _) fun _ => .pure _
  | close => exact keepsSettings_job _
  | _ => exact h.elim

/-- Every operation leaves settings that are sanitized for whether an image is attached. One that fails
leaves the settings and the attached files as they were. -/
theorem Operation.run_settled {op : Operation κ} (h : x.Settled) (ran : (op.run e).run x = (o, y)) :
    y.Settled ∧ ∀ f, o = .raised f → y.settings = x.settings ∧ y.attachments = x.attachments := by
  have kept {op : Operation κ} (ran : (op.run e).run x = (o, y))
      (follows : (op.run e).Follows keepsSettings) :
      y.Settled ∧ ∀ f, o = .raised f → y.settings = x.settings ∧ y.attachments = x.attachments := by
    have same : (y.settings, y.attachments) = (x.settings, x.attachments) := follows.of_run ran
    obtain ⟨settings, attachments⟩ := Prod.mk.inj same
    refine ⟨?_, fun _ _ => ⟨settings, attachments⟩⟩
    unfold Settled
    rw [settings, attachments]
    exact h
  cases op with
  | update changes =>
    rcases update_cases ran with ⟨f, rfl, rfl⟩ | ⟨s, hs, rfl, rfl⟩
    · exact ⟨h, fun _ _ => ⟨rfl, rfl⟩⟩
    · exact ⟨Settings.change_settled hs, nofun⟩
  | setSettings raw =>
    rcases setSettings_cases ran with ⟨f, rfl, rfl⟩ | ⟨s, hs, rfl, rfl⟩
    · exact ⟨h, fun _ _ => ⟨rfl, rfl⟩⟩
    · exact ⟨Settings.ofDraft_again hs, nofun⟩
  | resetSettings =>
    cases ran
    exact ⟨Settings.default_settled _, nofun⟩
  | attachImage image =>
    obtain ⟨s, hs, rfl, rfl⟩ := attachImage_run ran
    exact ⟨hs, nofun⟩
  | attachFont font =>
    cases ran
    exact ⟨h, nofun⟩
  | exportFile path listener => exact kept ran (keepsSettings_run e trivial)
  | enqueue paths => exact kept ran (keepsSettings_run e trivial)
  | runBatch listener => exact kept ran (keepsSettings_run e trivial)
  | close => exact kept ran (keepsSettings_run e trivial)

/-! ## Any operations -/

/-- What an exporter becomes by operations, however they end. -/
def afterAll (e : Engine σ) (x : Exporter σ κ) (ops : List (Operation κ)) : Exporter σ κ :=
  ops.foldl (fun x op => ((op.run e).run x).2) x

theorem settled_ofConfig (host : Host) (engine : σ) (c : Config) (client : κ) :
    (ofConfig host engine c client).Settled := Settings.default_settled _

theorem settled_afterAll (h : x.Settled) (ops : List (Operation κ)) : (afterAll e x ops).Settled := by
  induction ops generalizing x with
  | nil => exact h
  | cons op ops ih => exact ih (Operation.run_settled h rfl).1

/-! ## What is compiled -/

/-- The job that an export asks for is one of the exporter's settings and attached files. -/
theorem requestFor_settings {path : Path} {r : JobRequest}
    (h : (requestFor path).run x = (.returned r, y)) :
    r.settings = .record x.settings.record ∧ r.attachments = x.attachments := by
  obtain ⟨size, i, hi, h⟩ := Action.bind_returned h
  have sized : keepsSettings x i := (keepsSettings_sourceSize _).of_run hi
  obtain ⟨_, _, ⟨⟩, h⟩ := Action.bind_total h ⟨_, _, rfl⟩
  have drawn : ∃ t, keepsSettings x t ∧ (drawRequest path).run t = (.returned r, y) := by
    split at h
    · obtain ⟨_, t, ht, h⟩ := Action.bind_returned h
      obtain ⟨_, u, hu, h⟩ := Action.bind_returned h
      have shown : keepsSettings i t := Action.Follows.of_run (.ofExcept _) ht
      have warned : keepsSettings t u := (keepsSettings_host _).of_run hu
      exact ⟨u, keepsSettings.trans (keepsSettings.trans sized shown) warned, h⟩
    · exact ⟨i, sized, h⟩
  obtain ⟨t, same, h⟩ := drawn
  obtain ⟨_, _, ⟨⟩, h⟩ := Action.bind_total h ⟨_, _, rfl⟩
  obtain ⟨id, u, -, h⟩ := Action.bind_returned h
  obtain ⟨settings, attachments⟩ := Prod.mk.inj same
  cases h
  exact ⟨congrArg (fun s => Raw.record (Settings.record s)) settings, attachments⟩

/-- Every job that an operation starts is one of the exporter's settings, sanitized once more. -/
theorem Starts.settings {op : Operation κ} {r : JobRequest} {j : Job σ (Desk κ)} (h : x.Settled)
    (starts : Starts e x op r j) :
    Settings.sanitize r.settings r.attachments.image.isSome = .ok x.settings := by
  cases starts with
  | exportFile requested =>
    obtain ⟨settings, attachments⟩ := requestFor_settings requested
    rw [settings, attachments]
    exact h
  | runBatch _ sanitized =>
    obtain rfl := Except.ok.inj (h.symm.trans sanitized)
    exact h

section
variable {S : HostFrame} {P : EngineAct → Prop} {x y : Exporter (Recorded σ) κ}

/-- Steps of the engine whose acts have `P` are made in the job of an exporter. -/
def tracing (e : Engine σ) (P : EngineAct → Prop) : Evolution (Exporter (Recorded σ) κ) :=
  (Job.tracing e .any P).on (·.toJob)

theorem tracing_job {α : Type} {x : Action (Job (Recorded σ) (Desk κ)) α}
    (h : x.Follows (Job.tracing e .any P)) :
    (liftM x : Action (Exporter (Recorded σ) κ) α).Follows (tracing e P) := .zoom h fun _ _ h => h

theorem tracing_calmly {α : Type} {x : Action (Exporter (Recorded σ) κ) α}
    (h : x.Follows (calmly .any)) : x.Follows (tracing e P) :=
  h.mono fun _ _ h => ⟨traced_of_host h.engine h.host, h.config⟩

theorem exportFile_compiles {path : Path} {listener : Option (ProgressListener (Desk κ))}
    {o : Outcome JobResult} (h : x.Settled)
    (ran : (exportFile e.recorded path listener).run x = (o, y)) :
    tracing e (EngineAct.Compiles x.settings) x y := by
  rcases Action.bind_eq ran with ⟨r, i, hr, ran⟩ | ⟨f, hr, rfl⟩ | ⟨hr, rfl⟩
  · obtain ⟨_, _, ⟨⟩, ran⟩ := Action.bind_total ran ⟨_, _, rfl⟩
    obtain ⟨settings, attachments⟩ := requestFor_settings hr
    have sanitized : Settings.sanitize r.settings r.attachments.image.isSome = .ok x.settings := by
      rw [settings, attachments]
      exact h
    exact (tracing e _).trans ((tracing_calmly (calmly_requestFor path)).of_run hr)
      ((tracing_job (Job.tracing_run_compiles (.any _ _ _) sanitized)).of_run ran)
  · exact (tracing_calmly (calmly_requestFor path)).of_run hr
  · exact (tracing_calmly (calmly_requestFor path)).of_run hr

/-- Whatever is asked of an exporter, it executes no command but one of its settings. -/
theorem Operation.run_compiles {op : Operation κ} (h : x.Settled)
    (ran : (op.run e.recorded).run x = (o, y)) : tracing e (EngineAct.Compiles x.settings) x y := by
  by_cases uses : op.UsesEngine
  · cases op with
    | exportFile path listener =>
      obtain ⟨_, ran⟩ := Action.drop_eq ran
      exact exportFile_compiles h ran
    | runBatch listener =>
      obtain ⟨_, ran⟩ := Action.drop_eq ran
      obtain ⟨_, _, ⟨⟩, ran⟩ := Action.bind_total ran ⟨_, _, rfl⟩
      obtain ⟨_, _, ⟨⟩, ran⟩ := Action.bind_total ran ⟨_, _, rfl⟩
      exact (tracing_job (Batch.tracing_render h)).of_run ran
    | close =>
      have reset : e.recorded.reset.Follows (traced e .any (EngineAct.Compiles x.settings)) :=
        follows_reset (EngineAct.compiles_of_others nofun)
      exact (tracing_job (Job.tracing_world reset)).of_run ran
    | _ => exact uses.elim
  · exact (tracing_calmly (calmly_run e.recorded uses)).of_run ran

/-- The settings of an exporter, after any operations. They are sanitized for whether an image is attached,
and so the image watermark is on only where one is. An operation that fails leaves them and the attached
files as they were. Every job of the next export or batch has these settings once they are sanitized
again, and whatever command is executed is compiled from them. -/
theorem settings_settled (e : Engine σ) (host : Host) (engine : Recorded σ) (c : Config) (client : κ)
    (ops : List (Operation κ)) (reached : afterAll e.recorded (.ofConfig host engine c client) ops = x) :
    x.settings.resanitize x.attachments.image.isSome = .ok x.settings ∧
      x.settings.same x.settings = true ∧
      (x.settings.image.enabled = true → x.attachments.image.isSome = true) ∧
      (∀ (op : Operation κ) f y, (op.run e.recorded).run x = (.raised f, y) →
        y.settings = x.settings ∧ y.attachments = x.attachments) ∧
      (∀ op r j, Starts e.recorded x op r j →
        Settings.sanitize r.settings r.attachments.image.isSome = .ok x.settings) ∧
      ∀ (op : Operation κ) o y new, (op.run e.recorded).run x = (o, y) →
        y.engine.steps = x.engine.steps ++ new → ∀ step ∈ new, step.act.Compiles x.settings := by
  have settled : x.Settled := reached ▸ settled_afterAll (settled_ofConfig host engine c client) ops
  refine ⟨settled, (Settings.ofDraft_inDomain settled).same_self, settled.attached,
    fun op f y ran => (Operation.run_settled settled ran).2 f rfl,
    fun op r j => Starts.settings settled, fun op o y new ran steps => ?_⟩
  obtain ⟨⟨made, span, compiles⟩, -⟩ := Operation.run_compiles settled ran
  rw [← span.unique steps]
  exact compiles

end

/-! ## An exporter with an image -/

/-- A host with a video and an image. -/
def videoAndLogo : Host :=
  ((do
    Host.writeFile "clip.mp4" ⟨#[0]⟩
    Host.writeFile "logo.png" ⟨#[1]⟩ : Action Host Unit).run {}).2

/-- An exporter to which an image was attached and whose brightness was set, twice, once too high. -/
def withLogo : Exporter (Recorded MemoryEngine) Unit :=
  afterAll MemoryEngine.engine.recorded (ofConfig videoAndLogo { engine := {} } {} ())
    [.attachImage (some (.ofString "logo.png")), .update [("brightness", .number 5)],
      .update [("self", .null)]]

/-- The first command of which a record tells. -/
def firstCommand? (steps : List (EngineStep MemoryEngine)) : Option (List String) :=
  steps.findSome? fun step => match step.act with
    | .execute arguments => some arguments
    | _ => none

/-- The record of an export with this exporter. -/
def logoSteps : List (EngineStep MemoryEngine) :=
  (((Operation.exportFile (.ofString "clip.mp4") none).run MemoryEngine.engine.recorded).run
    withLogo).2.engine.steps

theorem settings_settled_with_logo :
    withLogo.settings.image.enabled = true ∧ withLogo.settings.brightness = 1 ∧
      withLogo.settings.resanitize true = .ok withLogo.settings ∧
      ∃ arguments inputName outputName context now, firstCommand? logoSteps = some arguments ∧
        Command.arguments inputName outputName withLogo.settings context now = .ok arguments := by
  obtain ⟨again, -, -, -, -, compiles⟩ := settings_settled MemoryEngine.engine videoAndLogo
    { engine := {} } {} () [.attachImage (some (.ofString "logo.png")),
      .update [("brightness", .number 5)], .update [("self", .null)]] (x := withLogo) rfl
  have attached : withLogo.attachments.image.isSome = true := by decide +kernel
  rw [attached] at again
  refine ⟨by decide +kernel, by decide +kernel, again, ?_⟩
  have executed : (firstCommand? logoSteps).isSome = true := by decide +kernel
  obtain ⟨arguments, found⟩ := Option.isSome_iff_exists.1 executed
  obtain ⟨step, mem, told⟩ := List.exists_of_findSome?_eq_some found
  have act : step.act = .execute arguments := by
    split at told
    · rename_i executed
      rw [executed, Option.some.inj told]
    · cases told
  have fresh : withLogo.engine.steps = [] := List.isEmpty_iff.1 (by decide +kernel)
  obtain ⟨inputName, outputName, context, now, compiled⟩ :=
    compiles (.exportFile (.ofString "clip.mp4") none) _ _ logoSteps rfl
      (by rw [fresh]; rfl) step mem arguments act
  exact ⟨arguments, inputName, outputName, context, now, found, compiled⟩

end Exporter

end VideoExport
