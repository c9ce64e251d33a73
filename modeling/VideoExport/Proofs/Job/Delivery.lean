import VideoExport.Proofs.Batch.Names
import VideoExport.Proofs.Engine.Keeping
import VideoExport.Proofs.Job.Footprint

/-!
# The delivery of a job

A run returns exactly if it comes to writing its output and the writing returns (`returns_iff_writes`), as
long as its listener takes in that it is done: nothing that comes after the writing fails.
On the local engine the file of the output is in place then, as large as the result says (`run_delivers`),
and the files that other jobs delivered stay (`run_keeps`).
-/

set_option autoImplicit false

namespace VideoExport

variable {σ κ : Type} {e : Engine σ}

/-! ## After the output is written -/

/-- Removing what was claimed returns if the engine answers. -/
theorem Storage.release_returns (hd : ∀ name, (e.delete name).Responds) (s : Storage σ) :
    ∃ t, (release e).run s = (.returned (), t) := by
  have discarded : ∀ (names : List String) (s : Storage σ), ∃ t, (discardAll e names).run s =
      (.returned (), t) := by
    intro names
    induction names with
    | nil => exact fun s => ⟨s, rfl⟩
    | cons name rest ih =>
      intro s
      have first : ∃ t, (discard e name).run s = (.returned (), t) := by
        unfold discard
        rcases ran : (liftM (e.delete name) : Action (Storage σ) Unit).run s with ⟨_ | f | _, t⟩
        · rw [Action.run_bind_of_returned (Action.attempt_ok.2 ran)]
          exact ⟨t, rfl⟩
        · rw [Action.run_bind_of_returned (Action.attempt_error.2 ran)]
          dsimp only
          split
          · exact ⟨t, rfl⟩
          · exact ⟨_, rfl⟩
        · obtain ⟨w, stalled, -⟩ := Action.zoom_eq ran
          exact absurd (congrArg Prod.fst stalled) (hd name _)
      obtain ⟨t, ht⟩ := first
      obtain ⟨u, hu⟩ := ih t
      exact ⟨u, (Action.run_bind_of_returned ht).trans hu⟩
  obtain ⟨t, ht⟩ := discarded s.claimed.reverse s
  exact ⟨{ t with claimed := [] }, (Action.run_bind_of_returned ht).trans rfl⟩

namespace Job

variable {probe : DurationProbe κ} {r : JobRequest} {s : Settings} {content : ByteArray}
  {listener : Option (ProgressListener κ)} {result : JobResult} {j k t u w : Job σ κ}

/-- A run with the settings `s` comes to writing its output, standing at `w`, and the writing returns, after
which the run stands at `u`. -/
structure Writes (e : Engine σ) (probe : DurationProbe κ) (r : JobRequest)
    (listener : Option (ProgressListener κ)) (s : Settings) (j : Job σ κ) (content : ByteArray)
    (w u : Job σ κ) : Prop where
  outputs : Outputs e probe r listener s j content w
  written : (writeOutput r.output content).run w = (.returned (), u)

/-- What is left of a run that has written its output: what it claimed is removed, and it is done. -/
theorem run_of_writes (h : Writes e probe r listener s j content w u)
    (released : (liftM (Storage.release e) : Action (Job σ κ) Unit).run u = (.returned (), t)) :
    (run e probe r listener).run j = (complete r content listener).run t := by
  obtain ⟨arguments, m, ⟨d, b, ⟨a, ⟨i, begins, readied⟩, prepared⟩, led⟩, fetched⟩ := h.outputs
  obtain ⟨_, c, opened, led⟩ := Action.bind_returned led
  obtain ⟨_, i', entered', opened'⟩ := Action.bind_returned opened
  obtain ⟨_, x, claimed, led⟩ := Action.bind_returned led
  obtain ⟨_, v, staged, led⟩ := Action.bind_returned led
  obtain ⟨_, m', entered, led⟩ := Action.bind_returned led
  cases led
  obtain ⟨_, y, rendered, fetched⟩ := Action.bind_returned fetched
  obtain ⟨_, z, entered'', read⟩ := Action.bind_returned fetched
  have produced : (produce e r s (imageOf r s) (namesOf r s) d listener).run c = (.returned content, u) := by
    unfold produce transcode
    rw [Action.run_bind_of_returned claimed, Action.run_bind_of_returned staged,
      Action.run_bind_of_returned entered, Action.run_bind_of_returned rendered,
      Action.run_bind_of_returned entered'']
    unfold collect
    rw [Action.run_bind_of_returned read, Action.run_bind_of_returned h.written]
    rfl
  have stored : (inStorage e r s d listener).run b = (.returned content, t) := by
    unfold inStorage
    rw [Action.run_bind_of_returned entered', Action.run_bind_of_returned opened']
    exact Action.run_ensuring_of_returned produced released
  have performed : (perform e probe r s listener).run i = (.returned content, t) := by
    unfold perform
    rw [Action.run_bind_of_returned readied, Action.run_bind_of_returned prepared, stored]
  rw [run_of_begins begins, Action.run_bind_of_returned (Action.attempt_ok.2 performed)]
  rfl

/-- A run that returns has written its output. -/
theorem writes_of_returned (ran : (run e probe r listener).run j = (.returned result, k)) :
    ∃ s content w u t, Settings.sanitize r.settings r.attachments.image.isSome = .ok s ∧
      Writes e probe r listener s j content w u ∧
      (liftM (Storage.release e) : Action (Job σ κ) Unit).run u = (.returned (), t) ∧
      (complete r content listener).run t = (.returned result, k) := by
  rcases run_cases e probe r listener j with ⟨f, hf⟩ | ⟨s, i, begins⟩
  · cases ran.symm.trans hf
  rcases conclude_cases begins ran nofun with ⟨f, t, -, failed⟩ | ⟨content, t, performed, completed⟩
  · obtain ⟨tail, raised⟩ := fail_eq failed
    cases raised
  obtain ⟨d, a, readied, performed⟩ := Action.bind_returned performed
  obtain ⟨_, b, prepared, stored⟩ := Action.bind_returned performed
  obtain ⟨_, i', entered', stored⟩ := Action.bind_returned stored
  obtain ⟨_, c, opened', stored⟩ := Action.bind_returned stored
  obtain ⟨p, u, produced, -, ⟨released, hp⟩ | ⟨f, -, raised⟩⟩ := Action.ensuring_eq stored nofun
  swap
  · cases raised
  subst hp
  obtain ⟨_, x, claimed, produced⟩ := Action.bind_returned produced
  obtain ⟨arguments, v, staged, produced⟩ := Action.bind_returned produced
  obtain ⟨_, m, entered, produced⟩ := Action.bind_returned produced
  obtain ⟨_, y, rendered, produced⟩ := Action.bind_returned produced
  obtain ⟨_, z, entered'', collected⟩ := Action.bind_returned produced
  obtain ⟨content', w, read, collected⟩ := Action.bind_returned collected
  obtain ⟨_, u', written, collected⟩ := Action.bind_returned collected
  cases collected
  refine ⟨s, content, w, u, t, begins.settings, ⟨⟨arguments, m, ⟨d, b, ⟨a, ⟨i, begins, readied⟩,
    prepared⟩, ?_⟩, ?_⟩, written⟩, released, completed⟩
  · unfold lead opening
    rw [Action.run_bind_of_returned ((Action.run_bind_of_returned entered').trans opened'),
      Action.run_bind_of_returned claimed, Action.run_bind_of_returned staged,
      Action.run_bind_of_returned entered]
    rfl
  · unfold fetch
    rw [Action.run_bind_of_returned rendered, Action.run_bind_of_returned entered'', read]

/-- The listener takes in all that it is told. -/
def TakesIn (listener : Option (ProgressListener κ)) : Prop :=
  ∀ tell, listener = some tell → ∀ value c, ((tell value).run c).1 = .returned ()

theorem announceDone_returns (told : TakesIn listener) (t : Job σ κ) : ∃ u, (announceDone r listener).run t = (.returned (), u) := by
  obtain ⟨i, entered⟩ : ∃ i, (enter r.id .done : Action (Job σ κ) Unit).run t = (.returned (), i) := ⟨_, rfl⟩
  unfold announceDone
  rw [Action.run_bind_of_returned entered]
  cases hl : listener with
  | none => exact ⟨i, rfl⟩
  | some tell => exact ⟨_, Prod.ext (told tell hl .one ⟨i.host, i.client⟩) rfl⟩

theorem complete_returns (told : TakesIn listener) (content : ByteArray) (t : Job σ κ) :
    ∃ result u, (complete r content listener).run t = (.returned result, u) := by
  obtain ⟨v, announced⟩ := announceDone_returns (r := r) told t
  rcases hc : (complete r content listener).run t with ⟨o, u⟩
  obtain ⟨-, ⟨_, history, -, rfl⟩ | ⟨f, failed, -⟩ | ⟨stalled, -⟩⟩ := complete_cases hc
  · exact ⟨_, u, rfl⟩
  · cases announced.symm.trans failed
  · cases announced.symm.trans stalled

/-- A run returns exactly if it comes to writing its output and the writing returns. -/
theorem returns_iff_writes (hd : ∀ name, (e.delete name).Responds) (told : TakesIn listener) :
    (∃ result k, (run e probe r listener).run j = (.returned result, k)) ↔
      ∃ s content w u, Writes e probe r listener s j content w u := by
  constructor
  · rintro ⟨result, k, ran⟩
    obtain ⟨s, content, w, u, _, -, writes, -⟩ := writes_of_returned ran
    exact ⟨s, content, w, u, writes⟩
  · rintro ⟨s, content, w, u, writes⟩
    obtain ⟨t, released⟩ := Storage.release_returns hd u.toStorage
    obtain ⟨result, k, completed⟩ := complete_returns (r := r) told content { u with toStorage := t }
    have cleaned : (liftM (Storage.release e) : Action (Job σ κ) Unit).run u =
        (.returned (), { u with toStorage := t }) :=
      congrArg (fun p : Outcome Unit × Storage σ => (p.1, { u with toStorage := p.2 })) released
    exact ⟨result, k, (run_of_writes writes cleaned).trans completed⟩

/-- What a run returns names its output. -/
theorem returned_output (ran : (run e probe r listener).run j = (.returned result, k)) :
    result.output = r.output := by
  obtain ⟨_, content, _, _, t, -, -, -, completed⟩ := writes_of_returned ran
  obtain ⟨-, ⟨_, _, -, done⟩ | ⟨_, -, ⟨⟩⟩ | ⟨-, ⟨⟩⟩⟩ := complete_cases completed
  cases done
  rfl

/-! ## Files that are delivered -/

open LocalEngine (Aloof Housed Keeping)

/-- A path to a file with a name such as outputs have, which does not go away with a temporary directory. -/
structure IsOutlet (path : String) : Prop where
  lasting : Host.Lasting path
  named : ∃ name rest, (FileTree.goal path).getLast? = some name ∧ name.toList = 'p' :: 'r' :: rest

/-- What a job asks the engine for are names of entries: its identifier is that of an item, and its source was
found by a path that was written. -/
structure Addressed (r : JobRequest) : Prop where
  id : IsItemId r.id
  source : ∃ s, r.source.path = .ofString s

variable {path : String} {f : StoredFile}

theorem isOutlet_child {directory name : String} {rest : List Char}
    (lasting : ∀ n, Host.temporaryName n ∉ (Path.ofString directory).parts) (entry : Path.IsEntry name)
    (begins : name.toList = 'p' :: 'r' :: rest) :
    IsOutlet ((Path.ofString directory).child name).toString where
  lasting := Host.lasting_child (Path.plain_ofString _) entry.toIsName fun n => ⟨lasting n, by
    rintro rfl
    rw [Host.temporaryName] at begins
    simp [toString, String.toList_append] at begins⟩
  named := by
    rw [FileTree.goal_child (Path.plain_ofString _) entry.toIsName, FileTree.step_entry entry]
    exact ⟨name, rest, List.getLast?_concat, begins⟩

theorem IsOutlet.aloof {name : String} {c d : Char} {rest : List Char} (outlet : IsOutlet path)
    (entry : Path.IsEntry name) (letters : name.toList = c :: d :: rest) (other : c ≠ 'p' ∨ d ≠ 'r') :
    Aloof path name where
  entry := entry
  other last := by
    obtain ⟨name', rest', last', letters'⟩ := outlet.named
    cases last'.symm.trans last
    rw [letters] at letters'
    obtain ⟨first, tail⟩ := List.cons.inj letters'
    exact other.elim (absurd first) (absurd (List.cons.inj tail).1)

theorem IsOutlet.aloof_pipe (outlet : IsOutlet path) : Aloof path "pipe:1" :=
  have letters : "pipe:1".toList = 'p' :: 'i' :: "pe:1".toList := rfl
  outlet.aloof ⟨⟨by decide, by decide, by decide⟩, by decide⟩ letters (.inr (by decide))

/-- No entry of a job has the name of an output. -/
theorem IsOutlet.aloof_own (outlet : IsOutlet path) (addressed : Addressed r) :
    ∀ n ∈ ownNames r s, Aloof path n := by
  intro n hn
  rcases List.mem_cons.1 hn with rfl | hn
  · have letters : fontEntry.toList = 'w' :: 'm' :: "_font.ttf".toList := rfl
    exact outlet.aloof ⟨⟨by decide, by decide, by decide⟩, by decide⟩ letters (.inl (by decide))
  · have entry := JobNames.isEntry_of_mem addressed.id addressed.source hn
    obtain ⟨first, hf, rest, letters⟩ := JobNames.bears_of_mem hn
    simp only [List.mem_cons, List.not_mem_nil, or_false] at hf
    rcases hf with rfl | rfl | rfl
    · exact outlet.aloof entry letters (.inl (by decide))
    · exact outlet.aloof entry letters (.inl (by decide))
    · exact outlet.aloof entry letters (.inl (by decide))

/-- The local engine does not reach an output when it is asked for the entries of a job. -/
theorem reaches_keeping (outlet : IsOutlet path) (addressed : Addressed r) :
    LocalEngine.engine.Reaches (ownNames r s) (Host.keepsFound path) (.keeping (Keeping path f)) where
  engine := LocalEngine.keeping_engine outlet.lasting outlet.aloof_pipe fun _ within =>
    within.imp_right fun among n touched => outlet.aloof_own addressed n (among n touched)
  host _ _ held kept := kept.of_host held

theorem reaches_housed (names : List String) :
    LocalEngine.engine.Reaches names .any (.keeping fun w => Housed w.engine) where
  engine := LocalEngine.housed_engine _
  host _ _ _ := id

/-! ## Runs on the local engine -/

section
variable {j k w : Job LocalEngine κ} {o : Outcome JobResult}

/-- However a run ends, the engine is housed. -/
theorem run_housed (ran : (run LocalEngine.engine probe r listener).run j = (o, k))
    (housed : Housed j.engine) : Housed k.engine ∧ k.runner.config = j.runner.config := by
  have reached : reach _ j k :=
    (reach_run (fun _ => reaches_housed _) (.any probe listener r.output)).of_run ran
  exact ⟨reached.1 housed, reached.2⟩

/-- What is read as an output is not too small. -/
theorem outputs_large {e : Engine σ} {j w : Job σ κ} (h : Outputs e probe r listener s j content w) :
    (Number.int content.size).lt w.runner.config.minOutput = false := by
  obtain ⟨_, _, -, fetched⟩ := h
  obtain ⟨_, _, -, fetched⟩ := Action.bind_returned fetched
  obtain ⟨_, _, -, fetched⟩ := Action.bind_returned fetched
  obtain ⟨_, x, -, checked⟩ := Action.bind_returned fetched
  obtain ⟨_, _, configured, checked⟩ := Action.bind_returned checked
  cases configured
  dsimp only at checked
  split at checked
  · obtain ⟨_, _, raised, -⟩ := Action.bind_returned checked
    cases raised
  · rename_i large
    cases checked
    exact Bool.eq_false_iff.2 large

variable (addressed : Addressed r)
include addressed

/-- However a run ends, a file that was delivered elsewhere stays. -/
theorem run_keeps (outlet : IsOutlet path) (hg : Guests (Host.keepsFound path) probe listener)
    (apart : FileTree.goal r.output.toString ≠ FileTree.goal path)
    (ran : (run LocalEngine.engine probe r listener).run j = (o, k)) (kept : Keeping path f j.toWorld) :
    Keeping path f k.toWorld := by
  have bystanders : Bystanders (Host.keepsFound path) probe listener r.output :=
    ⟨hg.probe, hg.listener, Host.keepsFound_ensureDirectory _, fun _ => Host.keepsFound_writeFile _ apart⟩
  have reached : reach _ j k :=
    (reach_run (fun _ => reaches_keeping (f := f) outlet addressed) bystanders).of_run ran
  exact reached.1 kept

/-- A run that returns has delivered a file that is as large as the result says, and not too small. -/
theorem run_delivers (outlet : IsOutlet r.output.toString)
    (hg : Guests (Host.keepsFound r.output.toString) probe listener)
    (ran : (run LocalEngine.engine probe r listener).run j = (.returned result, k))
    (housed : Housed j.engine) :
    result.output = r.output ∧ ∃ f, Keeping r.output.toString f k.toWorld ∧ f.content.size = result.size ∧
      (Number.int result.size).lt j.runner.config.minOutput = false := by
  obtain ⟨s, content, w, u, t, -, ⟨outputs, written⟩, released, completed⟩ := writes_of_returned ran
  obtain ⟨⟨housed', config⟩, claims⟩ := reach_outputs (S := .any) (reaches_housed _)
    ⟨fun _ _ => trivial, fun _ _ _ _ => trivial⟩ outputs
  have calm : Calm .any w u := (calm_writeOutput (.any probe listener r.output) content).of_run written
  obtain ⟨f, found, hf⟩ := writeOutput_returned written
  have kept : Keeping r.output.toString f u.toWorld :=
    ⟨show Housed u.engine from calm.engine.symm ▸ housed' housed, found⟩
  -- from here on the file stays: only what the run has claimed is removed
  have reaches := reaches_keeping (s := s) (f := f) outlet addressed
  have cleaned : reaching _ _ u t := (reaching_release reaches).of_run released
  obtain ⟨kept', -⟩ := cleaned.1 (calm.claimed.symm ▸ claims)
  have ended : reach _ t k :=
    (reach_calm reaches (calm_complete hg.bystanders r content)).of_run completed
  have large := outputs_large outputs
  rw [show w.runner.config = j.runner.config from config] at large
  obtain ⟨-, ⟨_, _, -, done⟩ | ⟨_, -, done⟩ | ⟨-, done⟩⟩ := complete_cases completed
  · cases done
    exact ⟨rfl, f, ended.1 (kept' kept), congrArg ByteArray.size hf, large⟩
  · cases done
  · cases done

end

end Job

/-! ## Runs that never end -/

namespace LocalEngine

theorem responds_entry {α : Type} {x : String → Action Host α} (hx : ∀ path, (x path).Responds)
    (name : String) :
    (entryPath name >>= fun path => (liftM (x path) : Action (World LocalEngine) α)).Responds := by
  rw [Action.responds_iff]
  refine .bind (.get_bind fun w _ => ?_) fun path => .zoom (hx path) fun _ _ => id
  split
  · exact .raise _
  · exact .ite (.pure _) (.raise _)

theorem responds_delete (name : String) : (engine.delete name).Responds :=
  responds_entry (fun _ => Host.responds_change _ _) name

/-- Only loading and executing can stall the local engine. -/
theorem responsive {c : Config} (load : (Deadline.limit? (some c.loadLimit)).isSome = true)
    (render : (Deadline.limit? (some c.renderLimit)).isSome = true) : engine.Responsive c where
  write name content := responds_entry (fun _ => Host.responds_writeFile _ content) name
  read := responds_entry Host.responds_readFile
  delete := responds_delete
  reset w stalled := by
    obtain ⟨_, ran, -⟩ := reset_run w
    cases (congrArg Prod.fst ran).symm.trans stalled
  load := .inr load
  execute := .inr render

end LocalEngine

namespace Job

variable {probe : DurationProbe κ} {r : JobRequest} {s : Settings} {listener : Option (ProgressListener κ)}
  {j k : Job σ κ}

/-- While a job makes ready, only the probe of its source can stall. -/
theorem ready_stalled (he : e.Responsive j.runner.config)
    (ran : (ready e probe r s).run j = (.stalled, k)) :
    ∃ c d, (probe r.source.path).run c = (.stalled, d) ∧ k.host = d.host := by
  rcases Action.bind_eq ran with ⟨_, i, -, measured⟩ | ⟨f, -, ⟨⟩⟩ | ⟨stalled, -⟩
  · split at measured
    · rcases Action.attempt_bind_eq measured with ⟨n, _, -, measured⟩ | ⟨f, _, -, measured⟩ | ⟨asked, -⟩
      · cases n <;> cases measured
      · cases measured
      · obtain ⟨d, stalled, rfl⟩ := Action.zoom_eq asked
        exact ⟨_, d, stalled, rfl⟩
    · cases measured
  · have ends := (ends_ensureEngine (steady_config _) he j rfl).1
    rw [stalled] at ends
    exact absurd rfl ends

/-- A run never ends only where the probe of its source does not, if nothing but time limits can keep its
engine from ending and its listener responds. -/
theorem run_stalled (he : e.Responsive j.runner.config)
    (hl : ∀ tell, listener = some tell → ∀ value, (tell value).Responds)
    (ran : (run e probe r listener).run j = (.stalled, k)) :
    ∃ c d, (probe r.source.path).run c = (.stalled, d) ∧ k.host = d.host := by
  have told (i : Job σ κ) (value : Binary64) : (tellProgress listener value : Action (Job σ κ) Unit).Ends
      fun k => k.runner.config = i.runner.config := ends_tellProgress (fun _ _ _ h => h) hl value
  rcases run_cases e probe r listener j with ⟨f, hf⟩ | ⟨s, i, begins⟩
  · cases ran.symm.trans hf
  rw [run_of_begins begins] at ran
  have config : i.runner.config = j.runner.config := ((calm_begin (S := .any) r).of_run begins.begun).config
  rcases Action.attempt_bind_eq ran with ⟨content, t, -, completed⟩ | ⟨f, t, -, failed⟩ | ⟨performed, -⟩
  · have ends : (complete r content listener).Ends fun k : Job σ κ => k.runner.config = t.runner.config :=
      .bind (ends_enter (steady_config _) _ _) fun _ => .bind (told t _) fun _ =>
        .bind (ends_note (steady_config _) _ _) fun _ => .bind (.read _) fun _ => .pure _
    exact absurd (congrArg Prod.fst completed) (ends t rfl).1
  · exact absurd (congrArg Prod.fst failed) (ends_fail (steady_config _) r.id f t rfl).1
  · have reaches (names : List String) : e.Reaches names .any .any := ⟨.any e _, fun _ _ _ => trivial⟩
    rcases Action.bind_eq performed with ⟨d, a, readied, rest⟩ | ⟨f, -, ⟨⟩⟩ | ⟨stalled, -⟩
    · have same : a.runner.config = i.runner.config :=
        ((reach_ready (reaches []) (.any probe listener r.output)).of_run readied).2
      have he : e.Responsive a.runner.config := by rwa [same, config]
      have handled : ∀ ev, (handle r.id listener ev : Action (Job σ κ) Deadline.Demand).Ends
          fun k => k.runner.config = a.runner.config :=
        ends_handle (steady_config _) fun _ => .bind (.read _) fun _ => .bind (.ofNumeric _) fun _ =>
          .bind (.modify fun _ h => h) fun _ => .bind (told a _) fun _ => .pure _
      have ends : (prepareFont e r s >>= fun _ => inStorage e r s d listener).Ends
          fun k : Job σ κ => k.runner.config = a.runner.config :=
        .bind (ends_prepareFont (steady_config _) he) fun _ => ends_inStorage (steady_config _) he handled
      exact absurd (congrArg Prod.fst rest) (ends a rfl).1
    · exact ready_stalled (config ▸ he) stalled

end Job

end VideoExport
