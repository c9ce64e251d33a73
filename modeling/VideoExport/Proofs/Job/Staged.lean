import Mathlib.Data.List.Forall2
import VideoExport.Proofs.Job.Cleanup
import VideoExport.Proofs.Job.Execution
import VideoExport.Proofs.Job.Output

/-!
# What the command of a run reads and writes

`lead_staged`: before its command a run deletes what is left under its names, claims them, and stages its
source and, if there is one, its image, each by one step that writes what the file holds. In working storage
that is durable these entries are there when the command is executed (`stored_of_stages`). The command names
just these as its inputs, in order, and last the output, which nobody has written (`command_of_staged`).
-/

set_option autoImplicit false

namespace VideoExport

variable {σ κ : Type} {e : Engine σ}

namespace Job

variable {probe : DurationProbe κ} {r : JobRequest} {s : Settings} {d : Number}
  {listener : Option (ProgressListener κ)} {j k : Job (Recorded σ) κ}

/-! ## The files of a run -/

/-- The files that a run stages, under the names of their entries: the source, and the image if there is
one. -/
def stagings (r : JobRequest) (s : Settings) : List (String × MediaFile) :=
  (namesOf r s).staged.zip (r.source :: (imageOf r s).toList)

theorem stagings_cases :
    (imageOf r s = none ∧ (namesOf r s).image = none ∧
      stagings r s = [((namesOf r s).input, r.source)]) ∨
    ∃ m name, imageOf r s = some m ∧ (namesOf r s).image = some name ∧
      stagings r s = [((namesOf r s).input, r.source), (name, m)] := by
  unfold stagings JobNames.staged
  cases hi : imageOf r s with
  | none =>
    have unnamed : (namesOf r s).image = none := by simp [namesOf, JobNames.ofJob, hi]
    exact .inl ⟨rfl, unnamed, by rw [unnamed]; rfl⟩
  | some m =>
    have named : (namesOf r s).image = some s!"wm_{r.id}.{m.imageExtension}" := by
      simp [namesOf, JobNames.ofJob, hi]
    exact .inr ⟨m, _, rfl, named, by rw [named]; rfl⟩

theorem stagings_names : (stagings r s).map Prod.fst = (namesOf r s).staged := by
  unfold JobNames.staged
  rcases stagings_cases (r := r) (s := s) with ⟨-, hi, h⟩ | ⟨m, name, -, hi, h⟩
  · rw [h, hi]
    rfl
  · rw [h, hi]
    rfl

theorem stagings_sources : (stagings r s).map Prod.snd = r.source :: (imageOf r s).toList := by
  rcases stagings_cases (r := r) (s := s) with ⟨hi, -, h⟩ | ⟨m, name, hi, -, h⟩
  · rw [h, hi]
    rfl
  · rw [h, hi]
    rfl

theorem staged_nodup : (namesOf r s).staged.Nodup := by
  have : (namesOf r s).staged.Sublist (namesOf r s).all :=
    .cons_cons _ (.cons _ (.refl _))
  exact namesOf_nodup.sublist this

/-- A step that stages a file: the engine accepts what the file holds then. -/
def Stages (p : String × MediaFile) (x : EngineStep σ) : Prop :=
  ∃ f, x.before.host.file? p.2.path.toString = some f ∧ x.act = .write p.1 f.content ∧
    x.result = .returned ()

theorem stages_of_mem {files : List (String × MediaFile)} {steps : List (EngineStep σ)}
    (h : List.Forall₂ Stages files steps) : ∀ x ∈ steps, ∃ p ∈ files, Stages p x := by
  induction h with
  | nil => exact List.forall_mem_nil _
  | cons first _ ih =>
    refine List.forall_mem_cons.2 ⟨⟨_, .head _, first⟩, fun x hx => ?_⟩
    obtain ⟨p, hp, stages⟩ := ih x hx
    exact ⟨p, .tail _ hp, stages⟩

/-! ## Staging -/

/-- What is to be staged is what the file holds; reading it changes nothing. -/
theorem contentFor_returned {σ : Type} {j k : Job σ κ} {name : String} {m : MediaFile}
    {content : ByteArray} (h : (contentFor name m).run j = (.returned content, k)) :
    k = j ∧ ∃ f, j.host.file? m.path.toString = some f ∧ f.content = content := by
  rcases Action.attempt_bind_eq h with ⟨a, t, hr, h⟩ | ⟨f, t, -, h⟩ | ⟨-, h⟩
  · cases h
    obtain ⟨t, ht, rfl⟩ := host_eq hr
    obtain ⟨rfl, read⟩ := Host.readFile_returned ht
    exact ⟨rfl, read⟩
  · dsimp only at h
    split at h <;> cases h
  · cases h

/-- A file is staged by one step. -/
theorem stageFile_returned {name : String} {m : MediaFile}
    (h : (stageFile e.recorded name m).run j = (.returned (), k)) :
    ∃ x : EngineStep σ, Stages (name, m) x ∧ ∀ S, Span e S j.toWorld [x] k.toWorld := by
  obtain ⟨content, i, hi, h⟩ := Action.bind_returned h
  obtain ⟨same, f, found, hf⟩ := contentFor_returned hi
  obtain ⟨t, ht, rfl⟩ := storage_eq h
  obtain ⟨_, u, hu, ht⟩ := Action.bind_returned ht
  have claimed : u.toWorld = i.toWorld := by
    cases hu
    dsimp only
    split <;> rfl
  rcases Action.attempt_bind_eq ht with ⟨a, t', hw, ht⟩ | ⟨g, t', -, ht⟩ | ⟨-, ht⟩
  · cases ht
    obtain ⟨w, written, there⟩ := Storage.world_eq hw
    obtain ⟨x, act, result, before, span⟩ := Span.recorded_step written (.write name content _)
    rw [claimed, same] at before span
    refine ⟨x, ⟨f, ?_, ?_, result⟩, fun S => ?_⟩
    · rw [before]
      exact found
    · rw [act, hf]
    · rw [there]
      exact span S
  · cases ht
  · cases ht

/-- The files of a run are staged by one step each. -/
theorem stageFiles_returned {arguments : List String}
    (h : (stageFiles e.recorded r s (imageOf r s) (namesOf r s) d).run j = (.returned arguments, k)) :
    ∃ steps : List (EngineStep σ), List.Forall₂ Stages (stagings r s) steps ∧
      ∀ S, Span e S j.toWorld steps k.toWorld := by
  obtain ⟨_, a, ha, h⟩ := Action.bind_returned h
  obtain ⟨_, b, hb, h⟩ := Action.bind_returned h
  obtain ⟨_, _, ⟨⟩, h⟩ := Action.bind_total h ⟨_, _, Action.run_get b⟩
  obtain ⟨now, c, hc, h⟩ := Action.bind_returned h
  rw [(Action.ofExcept_eq hc).1] at h
  obtain ⟨t, compiled, rfl⟩ := host_eq h
  have last (S : HostFrame) : Span e S b.toWorld [] { b.toWorld with host := t } :=
    .of_host rfl (((Command.follows_compile _ _ _ _).of_files S).of_run compiled)
  obtain ⟨x, hx, sx⟩ := stageFile_returned ha
  rcases stagings_cases (r := r) (s := s) with ⟨none, hn, files⟩ | ⟨m, name, some, hn, files⟩
  · rw [files]
    unfold stageImage at hb
    rw [none] at hb
    cases hb
    exact ⟨[x], .cons hx .nil, fun S => (sx S).append (last S)⟩
  · rw [files]
    unfold stageImage at hb
    rw [some, hn] at hb
    obtain ⟨y, hy, sy⟩ := stageFile_returned hb
    exact ⟨[x, y], .cons hx (.cons hy .nil), fun S => ((sx S).append (sy S)).append (last S)⟩

/-- A run has a name for an image just if the settings use one, and it has one then. -/
theorem imageInput?_namesOf {context : RenderContext} (image : context.imageName = (namesOf r s).image) :
    FilterGraph.imageInput? s context = (namesOf r s).image := by
  unfold FilterGraph.imageInput?
  rw [image]
  rcases stagings_cases (r := r) (s := s) with ⟨-, hn, -⟩ | ⟨m, name, some, hn, -⟩
  · rw [hn]
    split <;> rfl
  · have enabled : s.image.enabled = true := by
      unfold imageOf at some
      split at some
      · assumption
      · cases some
    have nonempty : name.isEmpty = false :=
      namesOf_nonempty name (JobNames.mem_all.2 (.inr (.inr hn)))
    rw [hn, if_pos enabled]
    simp [nonempty]

/-- The inputs of the command are the entries of the staged files. -/
theorem stageFiles_inputs {arguments : List String}
    (h : (stageFiles e.recorded r s (imageOf r s) (namesOf r s) d).run j = (.returned arguments, k)) :
    Command.following "-i" arguments = (namesOf r s).staged := by
  obtain ⟨_, _, _, compiled⟩ := stageFiles_compiled h
  have ne {name : String} (hn : name ∈ (namesOf r s).all) : name ≠ "-i" := by
    rintro rfl
    rcases JobNames.mem_all.1 hn with h | h | h
    · obtain ⟨rest, hr⟩ := JobNames.input_toList r.id r.source (imageOf r s)
      rw [show (JobNames.ofJob r.id r.source (imageOf r s)).input = "-i" from h.symm] at hr
      cases hr
    · obtain ⟨rest, hr⟩ := JobNames.output_toList r.id r.source (imageOf r s)
      rw [show (JobNames.ofJob r.id r.source (imageOf r s)).output = "-i" from h.symm] at hr
      cases hr
    · obtain ⟨rest, hr⟩ := JobNames.image_toList h
      cases hr
  rw [Command.compile_inputs compiled (ne (by simp [JobNames.all])) (ne (by simp [JobNames.all]))
    fun name h => ne (JobNames.mem_all.2 (.inr (.inr h)))]
  rw [imageInput?_namesOf rfl]
  rfl

/-! ## Before the command -/

/-- Before its command a run deletes what is left under its names, claims them, and stages its files, whose
entries are the inputs of the command. -/
theorem lead_staged {arguments : List String}
    (h : (lead e.recorded r s d).run j = (.returned arguments, k)) :
    k.claimed = (namesOf r s).all ∧ Command.following "-i" arguments = (namesOf r s).staged ∧
      arguments.getLast? = some (namesOf r s).output ∧
      ∃ (c : Job (Recorded σ) κ) (purged staged : List (EngineStep σ)),
        purged.map (·.act) = Storage.deletions (namesOf r s).all ∧
        List.Forall₂ Stages (stagings r s) staged ∧
        (∀ S, Span e S j.toWorld purged c.toWorld) ∧ ∀ S, Span e S c.toWorld staged k.toWorld := by
  obtain ⟨c, m, purged, claimed, -, acts, spurged, hm, entered⟩ := lead_split h
  obtain ⟨staged, stages, sstaged⟩ := stageFiles_returned hm
  have kept : Working e .any (fun _ => True) (namesOf r s).all .still c m :=
    (working_stageFiles r s _ d (fun _ h => h) fun _ _ _ => trivial).of_run hm
  refine ⟨?_, stageFiles_inputs hm, stageFiles_getLast hm, c, purged, staged, acts, stages, spurged,
    fun S => ?_⟩
  · have same : m.claimed = c.claimed := kept.storage.2 fun n hn => by
      show n ∈ c.claimed
      rwa [claimed]
    rw [(entered .any).claimed, same, claimed]
  · have span := (sstaged S).append (entered S).span
    rwa [List.append_nil] at span

/-- A file is staged by the step `x`, and its entry still holds in `w` what was written. The file itself does
too, if the engine leaves it alone. -/
def Stored (v : StorageView e) (w : World σ) (p : String × MediaFile) (x : EngineStep σ) : Prop :=
  ∃ f, x.before.host.file? p.2.path.toString = some f ∧ x.act = .write p.1 f.content ∧
    x.result = .returned () ∧ v.entry w p.1 = some f.content ∧
    ((∀ y : EngineStep σ, Made e y →
      (Host.keepsFile p.2.path.toString).toEvolution y.before.host y.after.host) →
        w.host.file? p.2.path.toString = some f)

/-- In durable storage, files that are staged under distinct names stay stored to the end of the staging. -/
theorem stored_of_stages {v : StorageView e} (durable : v.Durable) {w' : World σ}
    {files : List (String × MediaFile)} {steps : List (EngineStep σ)}
    (stages : List.Forall₂ Stages files steps) (nodup : (files.map Prod.fst).Nodup) {w : World σ}
    (linked : ∀ S, Linked e S w steps w') : List.Forall₂ (Stored v w') files steps := by
  induction stages generalizing w with
  | nil => exact .nil
  | @cons p x files steps hx stages ih =>
    obtain ⟨fresh, nodup⟩ := List.nodup_cons.1 nodup
    have first : Made e x := (linked .any).made x (.head _)
    have rest (S : HostFrame) : Linked e S x.after steps w' := by
      cases linked S with
      | cons _ _ _ h => exact h
    obtain ⟨f, found, act, result⟩ := hx
    refine .cons ⟨f, found, act, result, ?_, fun outside => ?_⟩ (ih nodup rest)
    · have untouched : ∀ y ∈ steps, ¬ y.act.Touches p.1 := by
        intro y hy touched
        obtain ⟨q, hq, g, -, hact, -⟩ := stages_of_mem stages y hy
        rw [hact] at touched
        exact fresh (touched ▸ List.mem_map_of_mem hq)
      rw [StorageView.entry_of_linked (rest v.spares) untouched]
      exact durable.written first act result
    · refine (rest (Host.keepsFile p.2.path.toString)).invariant
        (P := fun w => w.host.file? p.2.path.toString = some f) (fun _ _ _ hh h => hh.trans h)
        (fun y _ made h => (outside y made).trans h) ?_
      exact (outside x first).trans found

/-! ## The command -/

/-- What a command that is executed by the step `c`, after the steps `before` of its run, is supplied with.
Its inputs are the entries of the files that the run staged, in order, and all of them; they hold what the
files held. Last it names the output, whose entry was asked to be deleted and has not been touched since. -/
structure Supplied (v : StorageView e) (r : JobRequest) (s : Settings) (arguments : List String)
    (before : List (EngineStep σ)) (c : EngineStep σ) : Prop where
  inputs : Command.following "-i" arguments = (stagings r s).map Prod.fst
  sources : (stagings r s).map Prod.snd = r.source :: (imageOf r s).toList
  staged : ∃ readied purged staged, before = readied ++ (purged ++ staged) ∧
    (∀ x ∈ readied, ∀ n content, x.act = .write n content → n = fontEntry) ∧
    purged.map (·.act) = Storage.deletions (namesOf r s).all ∧
    List.Forall₂ (Stored v c.before) (stagings r s) staged
  output : arguments.getLast? = some (namesOf r s).output
  purged : Purged (namesOf r s).output before
  unwritten : ∀ x ∈ before, ∀ content, x.act ≠ .write (namesOf r s).output content

/-- Durable storage supplies a command with all that its run staged. -/
theorem supplied_of_executes {v : StorageView e} (durable : v.Durable) {arguments : List String}
    {before : List (EngineStep σ)} {c : EngineStep σ}
    (executes : Executes e.recorded probe r s j arguments k)
    (span : Span e .any j.toWorld before k.toWorld) (start : c.before = k.toWorld.bare) :
    k.claimed = (namesOf r s).all ∧ Supplied v r s arguments before c := by
  obtain ⟨d, b, entered, led⟩ := executes
  obtain ⟨readied, sreadied, fonts⟩ := traced_of_enters (S := .any)
    (P := fun act => ∀ n content, act = .write n content → n = fontEntry)
    (.any probe none r.output) entered nofun nofun fun _ _ _ h => (EngineAct.write.inj h).1.symm
  obtain ⟨claimed, inputs, output, i, purged, staged, acts, stages, spurged, sstaged⟩ := lead_staged led
  obtain rfl : readied ++ (purged ++ staged) = before :=
    (sreadied.append ((spurged .any).append (sstaged .any))).unique span.steps
  have purge : Purged (namesOf r s).output purged :=
    purged_of_deletions namesOf_nodup (by simp [JobNames.all]) acts
  -- what is staged is never the output
  have untouched : ∀ x ∈ staged, ¬ x.act.Touches (namesOf r s).output := by
    intro x hx touched
    obtain ⟨p, hp, f, -, act, -⟩ := stages_of_mem stages x hx
    rw [act] at touched
    have hm : p.1 ∈ (namesOf r s).staged := stagings_names ▸ List.mem_map_of_mem hp
    exact JobNames.output_notMem_staged (touched ▸ hm)
  refine ⟨claimed, inputs.trans stagings_names.symm, stagings_sources,
    ⟨readied, purged, staged, rfl, fonts, acts, ?_⟩, output, (purge.append untouched).prepend,
    fun x hx content act => ?_⟩
  · have nodup : ((stagings r s).map Prod.fst).Nodup := stagings_names ▸ staged_nodup
    rw [start]
    exact stored_of_stages durable stages nodup fun S => (sstaged S).linked
  · rcases List.mem_append.1 hx with hx | hx
    · have font := fonts x hx _ _ act
      exact fontEntry_notMem_namesOf (r := r) (s := s) (font ▸ by simp [JobNames.all])
    · rcases List.mem_append.1 hx with hx | hx
      · have hm : x.act ∈ Storage.deletions (namesOf r s).all := acts ▸ List.mem_map_of_mem hx
        obtain ⟨n, -, hn⟩ := List.mem_map.1 hm
        cases hn.trans act
      · exact untouched x hx (act ▸ rfl)

/-- A job of the octet with an image. -/
def octetWithLogo : JobRequest :=
  { octetClip with
    settings := .record
      { Settings.default with image := { Settings.default.image with enabled := true } }.record
    attachments := { image := some (.ofString "logo.png") } }

/-- The state before that job. -/
def beforeLogo : Job (Recorded MemoryEngine) Unit :=
  { beforeOutput with host := ((Host.writeFile "logo.png" ⟨#[1]⟩).run beforeOutput.host).2 }

/-- The run of that job. -/
def logoRun : Outcome JobResult × Job (Recorded MemoryEngine) Unit :=
  (run MemoryEngine.engine.recorded unknownLength octetWithLogo none).run beforeLogo

end Job

end VideoExport
