import VideoExport.Proofs.Batch.Item
import VideoExport.Proofs.Settings.Domain

/-!
# What jobs compile with

A job executes no command but one of its own settings, sanitized (`Job.tracing_run_compiles`), and a
batch none but one of the settings that it was given, sanitized once (`Batch.tracing_render`).
-/

set_option autoImplicit false

namespace VideoExport

variable {σ κ : Type} {e : Engine σ} {S : HostFrame} {s : Settings}

/-- If a command is executed, it is one of the settings. -/
def EngineAct.Compiles (s : Settings) (act : EngineAct) : Prop :=
  ∀ arguments, act = .execute arguments → ∃ inputName outputName context now,
    Command.arguments inputName outputName s context now = .ok arguments

theorem EngineAct.compiles_of_others {act : EngineAct} (h : ∀ a, act ≠ .execute a) :
    act.Compiles s := fun a ha => absurd ha (h a)

namespace Job

variable {r : JobRequest} {image : Option MediaFile} {names : JobNames} {d : Number}

theorem stageFiles_compiles {j k : Job σ κ} {arguments : List String}
    (h : (stageFiles e r s image names d).run j = (.returned arguments, k)) :
    (EngineAct.execute arguments).Compiles s := by
  rintro _ ⟨⟩
  obtain ⟨now, _, _, compiled⟩ := stageFiles_compiled h
  obtain ⟨g, time, built, rfl⟩ := Command.compile_eq compiled
  refine ⟨names.input, names.output, { duration := d, timestamp := now, imageName := names.image },
    time, ?_⟩
  unfold Command.arguments
  rw [built]
  rfl

/-- A job executes no command but one of its settings, sanitized. -/
theorem tracing_run_compiles {probe : DurationProbe κ} {listener : Option (ProgressListener κ)}
    (hb : Bystanders S probe listener r.output)
    (hs : Settings.sanitize r.settings r.attachments.image.isSome = .ok s) :
    (run e.recorded probe r listener : Action (Job (Recorded σ) κ) JobResult).Follows
      (tracing e S (EngineAct.Compiles s)) :=
  tracing_run_of hb (fun _ => EngineAct.compiles_of_others) fun hs' staged => by
    obtain rfl := Except.ok.inj (hs.symm.trans hs')
    exact stageFiles_compiles staged

end Job

namespace Batch

variable {probe : DurationProbe (Desk κ)} {directory : Path} {attachments : Attachments}
  {listener : Option (ItemListener κ)} {P : EngineAct → Prop} {α : Type}

theorem tracing_caller (x : Action (Caller (Desk κ)) α) :
    (liftM x : Action (State (Recorded σ) κ) α).Follows (Job.tracing e .any P) :=
  Job.tracing_calm (Job.calm_caller fun _ => trivial)

theorem tracing_log (level : Level) (source message : String) :
    (liftM (Host.log level source message) : Action (State (Recorded σ) κ) Unit).Follows
      (Job.tracing e .any P) :=
  Job.tracing_calm (Job.calm_host fun _ => trivial)

theorem tracing_renderItem (again : s.resanitize attachments.image.isSome = .ok s)
    (item : QueueItem) :
    (renderItem e.recorded probe directory s attachments listener item).Follows
      (Job.tracing e .any (EngineAct.Compiles s)) :=
  .bind (tracing_caller _) fun _ =>
    .bind (Job.tracing_run_compiles (r := requestFor directory s attachments item)
      (.any _ _ _) again).attempt fun _ =>
    .bind (tracing_caller _) fun _ => tracing_caller _

theorem tracing_renderItems (again : s.resanitize attachments.image.isSome = .ok s) (total : Nat) :
    ∀ (position : Nat) (items : List QueueItem),
      (renderItems e.recorded probe directory s attachments listener total position items).Follows
        (Job.tracing e .any (EngineAct.Compiles s))
  | _, [] => .pure _
  | _, item :: rest =>
    .bind (tracing_log _ _ _) fun _ => .bind (tracing_renderItem again item) fun _ =>
      tracing_renderItems again total _ rest

/-- A batch executes no command but one of its settings, sanitized. -/
theorem tracing_render {settings : Raw}
    (hs : Settings.sanitize settings attachments.image.isSome = .ok s) :
    (render e.recorded probe directory settings attachments listener).Follows
      (Job.tracing e .any (EngineAct.Compiles s)) := by
  have again := Settings.ofDraft_again hs
  refine .bind (tracing_caller _) fun claimed => ?_
  cases claimed with
  | false => exact .pure _
  | true =>
    rw [hs]
    refine .bind_of (.ofNumeric _) fun {_ _ a} ha => .bind (tracing_caller _) fun _ => ?_
    obtain rfl : s = a := Outcome.returned.inj (congrArg Prod.fst ha)
    refine .bind (.ensuring ?_ (tracing_caller _)) fun _ => .bind (.read _) fun _ =>
      .bind (tracing_log _ _ _) fun _ => .pure _
    exact .bind (.read _) fun _ => .bind (tracing_log _ _ _) fun _ =>
      .bind (tracing_renderItems again _ _ _) fun _ => .pure _

end Batch

end VideoExport
