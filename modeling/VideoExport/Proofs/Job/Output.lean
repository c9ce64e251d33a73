import VideoExport.Proofs.Engine.Storage
import VideoExport.Proofs.Host.FileTree
import VideoExport.Proofs.Job.Overlap
import VideoExport.Proofs.Job.Report

/-!
# The output of a job

A run writes its output at the end of its work, or not at all. `Outputs`: the point where it has read
what the engine made and is about to write it. `run_output` splits a run there. So a run that fails for
another reason than the writing leaves the file of the output as it was, and one that returns leaves
there what the engine had under the name of the output (`output_integrity`); what it had there from
before was deleted, unless the engine refused, so that only the run's own command can have made it
(`Exported`).
-/

set_option autoImplicit false

namespace VideoExport

variable {σ κ : Type}

/-- The changes that two frames allow. -/
def HostFrame.and (S T : HostFrame) : HostFrame where
  toEvolution := S.toEvolution.and T.toEvolution
  of_files h := ⟨S.of_files h, T.of_files h⟩

/-! ## Executions that come to their end -/

namespace Deadline

variable {ω ε : Type} [Hosted ω]

theorem check_still {operation : TimedOperation} {limit deadline : Number} :
    (check operation limit deadline : Action ω Unit).Follows .still := follows_check _ _ _

/-- What was handed over to its end was started where the relay was. -/
theorem relay_started {E : Evolution ω} {start : Action ω (Execution ω ε)} {limit : Option Number}
    {operation : TimedOperation} {handle : ε → Action ω Demand} {s u : ω}
    (hx : ∀ s x t, start.run s = (.returned x, t) → x.Follows E) (hh : ∀ a, (handle a).Follows E)
    (h : (relay limit operation start handle).run s = (.returned (), u)) :
    ∃ x t, start.run s = (.returned x, t) ∧ E t u := by
  unfold relay at h
  cases hl : limit? limit with
  | none =>
    rw [hl] at h
    obtain ⟨x, t, ht, h⟩ := Action.bind_returned h
    have follows := hx _ _ _ ht
    exact ⟨x, t, ht, (follows_handOver (.pure _) hh follows.finish _ _ follows.before follows.close
      E.refl).of_run h⟩
  | some n =>
    rw [hl] at h
    -- what comes before the start leaves the state as it is
    obtain ⟨_, s₁, hn, h₁⟩ := Action.bind_returned h
    obtain ⟨_, s₂, hd, h₂⟩ := Action.bind_returned h₁
    obtain ⟨_, s₃, hc, h₃⟩ := Action.bind_returned h₂
    have still : s₃ = s :=
      (check_still.of_run hc : s₃ = s₂).trans
        (((Action.Follows.ofNumeric (E := .still) _).of_run hd : s₂ = s₁).trans
          ((Action.Follows.read (E := .still) _).of_run hn : s₁ = s))
    obtain ⟨x, t, ht, h₄⟩ := Action.bind_returned h₃
    rw [still] at ht
    have started := unstalled_returned ht
    have follows := hx _ _ _ started
    exact ⟨x, t, started, (follows_handOver (follows_check _ _ _) hh
      (follows_unstalled _ _ follows.finish) _ _ follows.before follows.close E.refl).of_run h₄⟩

end Deadline

/-! ## Who takes part until the output is written -/

/-- Those who take part in a job besides its engine, except for the writing of its output, change the
host within `S`. -/
structure Guests (S : HostFrame) (probe : DurationProbe κ)
    (listener : Option (ProgressListener κ)) : Prop where
  probe : ∀ path, (probe path).Follows (S.toEvolution.on Caller.host)
  listener : ∀ tell, listener = some tell → ∀ value,
    (tell value).Follows (S.toEvolution.on Caller.host)

/-- A path that nothing can be written to. -/
def unwritable : Path := ⟨"", ["\x00", "\x00"]⟩

section
variable {S T : HostFrame} {probe : DurationProbe κ} {listener : Option (ProgressListener κ)}

/-- The guests are all who take part if nothing can be written. -/
theorem Guests.bystanders (h : Guests S probe listener) :
    Bystanders S probe listener unwritable where
  probe := h.probe
  listener := h.listener
  directory _ := S.of_files rfl
  file _ _ := S.of_files rfl

theorem Guests.and (h : Guests S probe listener) (h' : Guests T probe listener) :
    Guests (S.and T) probe listener where
  probe path s := ⟨h.probe path s, h'.probe path s⟩
  listener tell ht value s := ⟨h.listener tell ht value s, h'.listener tell ht value s⟩

end

namespace Job

variable {e : Engine σ} {S : HostFrame} {probe : DurationProbe κ} {r : JobRequest} {s : Settings}
  {listener : Option (ProgressListener κ)} {d : Number}

/-! ## The point where a run writes its output -/

/-- What a run does from its command to its output. -/
def fetch (e : Engine σ) (r : JobRequest) (s : Settings) (arguments : List String)
    (listener : Option (ProgressListener κ)) : Action (Job σ κ) ByteArray := do
  render e r.id arguments listener
  enter r.id .readingOutput
  readOutput e (namesOf r s).output

/-- A run has read its output, which is `content`, and is about to write it; it stands at `w`. -/
def Outputs (e : Engine σ) (probe : DurationProbe κ) (r : JobRequest)
    (listener : Option (ProgressListener κ)) (s : Settings) (j : Job σ κ) (content : ByteArray)
    (w : Job σ κ) : Prop :=
  ∃ arguments k, Executes e probe r s j arguments k ∧
    (fetch e r s arguments listener).run k = (.returned content, w)

/-- Anything may be done to the engine, and the host changes within `S`. -/
def within (e : Engine σ) (S : HostFrame) : Evolution (Job (Recorded σ) κ) :=
  tracing e S fun _ => True

variable {j k : Job (Recorded σ) κ}

theorem within_working {N : List String} {T : Evolution Bool}
    (h : Working e S (fun _ => True) N T j k) : within e S j k := ⟨h.storage.1, h.config⟩

theorem within_calm (h : Calm S j k) : within e S j k :=
  within_working (N := []) (T := .any) h.working

theorem within_span {new : List (EngineStep σ)} (h : Span e S j.toWorld new k.toWorld)
    (config : k.runner.config = j.runner.config) : within e S j k :=
  ⟨⟨new, h, fun _ _ => trivial⟩, config⟩

/-- Claiming the names of a job is all that is done in working storage before its files are staged. -/
theorem within_claimed (h : (opening r >>= fun _ => claimNames e.recorded (namesOf r s)).run j =
    (.returned (), k)) : within e S j k := by
  obtain ⟨_, i, hi, hc⟩ := Action.bind_returned h
  obtain ⟨-, unclaimed, memory, opened⟩ := opening_eq (S := S) (e := e) hi
  obtain ⟨-, -, memory', purged, -, span⟩ := claimNames_eq (S := S) hc nofun unclaimed
  exact within_span (opened.append span) (congrArg Prod.fst (memory'.trans memory))

/-- Writing the output is the last that the part in working storage does before its deletions; it
fails then, or before. -/
theorem inStorage_output {b t : Job (Recorded σ) κ} {p : Outcome ByteArray}
    (hg : Guests S probe listener)
    (h : (inStorage e.recorded r s d listener).run b = (p, t)) (ends : p ≠ .stalled) :
    (within e S b t ∧ ∃ f, p = .raised f) ∨
    ∃ arguments m content w q u, (lead e.recorded r s d).run b = (.returned arguments, m) ∧
      (fetch e.recorded r s arguments listener).run m = (.returned content, w) ∧
      within e S b w ∧ (writeOutput r.output content).run w = (q, u) ∧ within e S u t ∧
      ((∃ f, q = .raised f ∧ p = .raised f) ∨ q = .returned () ∧ p = .returned content) := by
  obtain ⟨c, u, hc, hu, hr, last, -, slast⟩ := inStorage_eq (S := S) h ends
  have claimed : within e S b c := within_claimed hc
  have released : within e S u t := within_span slast (by rw [hr])
  have staging {x : Outcome (List String)} {m : Job (Recorded σ) κ}
      (hm : (stageFiles e.recorded r s (imageOf r s) (namesOf r s) d).run c = (x, m)) :
      within e S b m :=
    (within e S).trans claimed (within_working (N := (namesOf r s).all) (T := .still)
      ((working_stageFiles r s _ d (fun _ h => h) fun _ _ _ => trivial).of_run hm))
  rcases transcode_cases hu ends with ⟨f, hf, rfl⟩ | ⟨arguments, m, hm, h⟩
  · exact .inl ⟨(within e S).trans (staging hf) released, f, rfl⟩
  · obtain ⟨_, i, hi, hm⟩ := Action.bind_returned hm
    obtain ⟨_, i', hi', hm⟩ := Action.bind_returned hm
    cases hm
    have led : (lead e.recorded r s d).run b = (.returned arguments, m) := by
      obtain ⟨_, a, ha, hc⟩ := Action.bind_returned hc
      unfold lead
      rw [Action.run_bind_of_returned ha, Action.run_bind_of_returned hc,
        Action.run_bind_of_returned hi, Action.run_bind_of_returned hi']
      rfl
    have staged : within e S b m :=
      (within e S).trans (staging hi) (within_calm ((calm_enter _ _).of_run hi'))
    have rendered {q : Outcome Unit} {v : Job (Recorded σ) κ}
        (hv : (render e.recorded r.id arguments listener).run m = (q, v)) : within e S b v :=
      (within e S).trans staged (within_working (N := []) (T := .any)
        ((working_render hg.bystanders (fun _ => trivial) trivial fun _ _ => trivial).of_run hv))
    rcases h with ⟨f, hf, rfl⟩ | ⟨v, w, hv, hw, hk⟩
    · exact .inl ⟨(within e S).trans (rendered hf) released, f, rfl⟩
    · have read {q : Outcome ByteArray} {x : Job (Recorded σ) κ}
          (hx : (readOutput e.recorded (namesOf r s).output).run w = (q, x)) : within e S b x :=
        (within e S).trans ((within e S).trans (rendered hv)
          (within_calm ((calm_enter _ _).of_run hw)))
          (within_working (N := []) (T := .any) ((working_readOutput trivial).of_run hx))
      rcases Action.bind_eq hk with ⟨content, x, hx, hk⟩ | ⟨f, hx, rfl⟩ | ⟨-, rfl⟩
      · have fetched : (fetch e.recorded r s arguments listener).run m = (.returned content, x) := by
          unfold fetch
          rw [Action.run_bind_of_returned hv, Action.run_bind_of_returned hw, hx]
        rcases Action.bind_eq hk with ⟨_, y, hy, hk⟩ | ⟨f, hy, rfl⟩ | ⟨-, rfl⟩
        · cases hk
          exact .inr ⟨arguments, m, content, x, _, _, led, fetched, read hx, hy, released,
            .inr ⟨rfl, rfl⟩⟩
        · exact .inr ⟨arguments, m, content, x, _, _, led, fetched, read hx, hy, released,
            .inl ⟨f, rfl, rfl⟩⟩
        · exact absurd rfl ends
      · exact .inl ⟨(within e S).trans (read hx) released, f, rfl⟩
      · exact absurd rfl ends

/-- A run that begins does not come to writing its output and fails, or it comes there: then it fails
if the writing does, and otherwise it reports that it is done. -/
theorem run_output {i : Job (Recorded σ) κ} {o : Outcome JobResult}
    (hg : Guests S probe listener) (hi : Begins r s j i)
    (ran : (run e.recorded probe r listener).run j = (o, k)) (ends : o ≠ .stalled) :
    (within e S j k ∧ ∃ f tail, o = .raised (.exportFailed f tail)) ∨
    ∃ content w q u, Outputs e.recorded probe r listener s j content w ∧ within e S j w ∧
      (writeOutput r.output content).run w = (q, u) ∧ within e S u k ∧
      ((∃ f tail, q = .raised f ∧ o = .raised (.exportFailed f tail)) ∨
        ∃ t, q = .returned () ∧ (complete r content listener).run t = (o, k)) := by
  have begun : within e S j i := within_calm ((calm_begin r).of_run hi.begun)
  have worked {p : Outcome ByteArray} {t : Job (Recorded σ) κ}
      (h : (perform e.recorded probe r s listener).run i = (p, t)) (hp : p ≠ .stalled) :
      (within e S j t ∧ ∃ f, p = .raised f) ∨
      ∃ content w q u, Outputs e.recorded probe r listener s j content w ∧ within e S j w ∧
        (writeOutput r.output content).run w = (q, u) ∧ within e S u t ∧
        ((∃ f, q = .raised f ∧ p = .raised f) ∨ q = .returned () ∧ p = .returned content) := by
    rcases perform_cases h hp with ⟨f, hf, rfl⟩ | ⟨d, a, b, ha, hb, hs⟩
    · exact .inl ⟨(within e S).trans begun
        ((tracing_ready hg.bystanders trivial trivial).of_run hf), f, rfl⟩
    · have entered : within e S j b :=
        (within e S).trans begun ((within e S).trans
          ((tracing_ready hg.bystanders trivial trivial).of_run ha)
          ((tracing_prepareFont fun _ => trivial).of_run hb))
      rcases inStorage_output hg hs hp with ⟨hw, hf⟩ |
        ⟨arguments, m, content, w, q, u, led, fetched, hw, hq, hu, cases⟩
      · exact .inl ⟨(within e S).trans entered hw, hf⟩
      · exact .inr ⟨content, w, q, u,
          ⟨arguments, m, ⟨d, b, ⟨a, ⟨i, hi, ha⟩, hb⟩, led⟩, fetched⟩,
          (within e S).trans entered hw, hq, hu, cases⟩
  rcases conclude_cases hi ran ends with ⟨f, t, ht, h⟩ | ⟨content, t, ht, h⟩
  · have failed : within e S t k := within_calm ((calm_fail _ _).of_run h)
    obtain ⟨tail, rfl⟩ := fail_eq h
    rcases worked ht nofun with ⟨hw, -⟩ | ⟨content, w, q, u, hc, hw, hq, hu, ⟨g, rfl, hg⟩ | ⟨-, hr⟩⟩
    · exact .inl ⟨(within e S).trans hw failed, f, tail, rfl⟩
    · cases hg
      exact .inr ⟨content, w, _, u, hc, hw, hq, (within e S).trans hu failed,
        .inl ⟨f, tail, rfl, rfl⟩⟩
    · cases hr
  · have done : within e S t k := within_calm ((calm_complete hg.bystanders r content).of_run h)
    rcases worked ht nofun with ⟨-, f, hf⟩ | ⟨_, w, q, u, hc, hw, hq, hu, ⟨g, rfl, hg⟩ | ⟨rfl, hr⟩⟩
    · cases hf
    · cases hg
    · cases hr
      exact .inr ⟨content, w, _, u, hc, hw, hq, (within e S).trans hu done, .inr ⟨t, rfl, h⟩⟩

/-! ## The steps up to the output -/

/-- Among the steps is a deletion of the entry that no later one touches. -/
def Purged (n : String) (steps : List (EngineStep σ)) : Prop :=
  ∃ a c b, steps = a ++ c :: b ∧ c.act = .delete n ∧ ∀ x ∈ b, ¬ x.act.Touches n

theorem Purged.append {n : String} {a b : List (EngineStep σ)} (h : Purged n a)
    (hb : ∀ x ∈ b, ¬ x.act.Touches n) : Purged n (a ++ b) := by
  obtain ⟨x, c, y, rfl, hact, hy⟩ := h
  refine ⟨x, c, y ++ b, by simp, hact, fun z hz => ?_⟩
  rcases List.mem_append.1 hz with hz | hz
  · exact hy z hz
  · exact hb z hz

theorem Purged.prepend {n : String} {a b : List (EngineStep σ)} (h : Purged n b) :
    Purged n (a ++ b) := by
  obtain ⟨x, c, y, rfl, hact, hy⟩ := h
  exact ⟨a ++ x, c, y, by simp, hact, hy⟩

/-- Deletions of distinct names purge each of them. -/
theorem purged_of_deletions {n : String} : ∀ {names : List String} {steps : List (EngineStep σ)},
    names.Nodup → n ∈ names → steps.map (·.act) = Storage.deletions names → Purged n steps
  | m :: rest, steps, nodup, mem, acts => by
    obtain ⟨c, cs, rfl, hc, hcs⟩ := List.map_eq_cons_iff.1 acts
    obtain ⟨hm, hrest⟩ := List.nodup_cons.1 nodup
    rcases List.mem_cons.1 mem with rfl | mem
    · exact ⟨[], c, cs, rfl, hc, fun x hx touched => hm (among_deletions hcs x hx n touched)⟩
    · exact (purged_of_deletions hrest mem hcs).prepend (a := [c])

/-- What comes before the command purges the entry of the output. -/
theorem lead_purges {arguments : List String}
    (h : (lead e.recorded r s d).run j = (.returned arguments, k)) :
    ∃ new : List (EngineStep σ), Span e S j.toWorld new k.toWorld ∧
      Purged (namesOf r s).output new := by
  obtain ⟨c, m, purged, -, -, acts, spurged, hm, entered⟩ := lead_split h
  have staging : (stageFiles e.recorded r s (imageOf r s) (namesOf r s) d :
      Action (Job (Recorded σ) κ) (List String)).Follows
      (working e S (¬ ·.Touches (namesOf r s).output) (namesOf r s).all .still) :=
    working_stageFiles r s _ d (fun _ h => h) fun n hn _ touched =>
      JobNames.output_notMem_staged (touched ▸ hn)
  obtain ⟨⟨staged, sstaged, untouched⟩, -⟩ := (staging.of_run hm).storage
  refine ⟨purged ++ staged, ?_, ?_⟩
  · have span := ((spurged S).append sstaged).append (entered S).span
    rwa [List.append_nil] at span
  · exact (purged_of_deletions namesOf_nodup (JobNames.mem_all.2 (.inr (.inl rfl))) acts).append
      untouched

/-- A command that was executed to its end took one start, and then only steps of its execution. -/
theorem render_steps {id : String} {arguments : List String} (hg : Guests S probe listener)
    (h : (render e.recorded id arguments listener).run j = (.returned (), k)) :
    ∃ (c : EngineStep σ) (running : List (EngineStep σ)), Span e S j.toWorld (c :: running) k.toWorld ∧
      c.act = .execute arguments ∧ ∀ x ∈ running, x.act.IsOf arguments := by
  obtain ⟨_, _, hc, h⟩ := Action.bind_total h ⟨_, _, config_run j⟩
  cases hc
  rcases distrusting_cases h with ⟨⟨⟩, -, hx⟩ | ⟨_, _, ho, -⟩ | ⟨ho, -⟩
  · have lift {l m : Job (Recorded σ) κ} (h : Working e S (·.IsOf arguments) [] .any l m) :
        tracing e S (·.IsOf arguments) l m := ⟨h.storage.1, h.config⟩
    have started {l m : Job (Recorded σ) κ} {x : Execution (Job (Recorded σ) κ) EngineEvent}
        (hx : (start e.recorded arguments).run l = (.returned x, m)) :
        x.Follows (tracing e S (·.IsOf arguments)) := by
      have := follows_started (T := .any) (N := []) (S := S) hx fun _ h => h
      exact ⟨fun n hn s => lift (this.before n hn s), fun n hn s => lift (this.close n hn s),
        fun s => lift (this.finish s)⟩
    obtain ⟨x, t, ht, ⟨running, span, acts⟩, -⟩ := Deadline.relay_started
      (fun _ _ _ => started) (fun ev => tracing_calm (calm_handle hg.bystanders id ev)) hx
    obtain ⟨y, l, hl, ht⟩ := Action.bind_returned ht
    cases ht
    obtain ⟨w, hw, rfl⟩ := world_eq hl
    obtain ⟨c, hc, -, sc⟩ := execute_span (S := S) hw
    exact ⟨c, running, sc.append span, hc, acts⟩
  · cases ho
  · cases ho

/-- What was read is what the engine returned, and is not too small. -/
theorem readOutput_steps {name : String} {content : ByteArray}
    (h : (readOutput e.recorded name).run j = (.returned content, k)) :
    ∃ c : EngineStep σ, Span e S j.toWorld [c] k.toWorld ∧ c.act = .read name ∧
      (e.read name).run c.before = (.returned content, c.after) ∧
      (Number.int content.size).lt j.runner.config.minOutput = false := by
  obtain ⟨bytes, i, hi, h⟩ := Action.bind_returned h
  obtain ⟨w, hw, rfl⟩ := world_eq hi
  obtain ⟨_, _, hc, h⟩ := Action.bind_total h ⟨_, _, config_run _⟩
  cases hc
  dsimp only at h
  split at h
  · obtain ⟨_, _, hr, -⟩ := Action.bind_returned h
    cases hr
  · rename_i large
    cases h
    obtain ⟨hread, rfl⟩ := Prod.mk.inj hw
    refine ⟨_, .recordStep _ (.read name _), rfl, Prod.ext hread rfl, ?_⟩
    simpa using large

/-- Up to the point where it writes its output, a run has purged the entry of the output, executed its
command, and read the entry. -/
theorem outputs_steps {content : ByteArray} {w : Job (Recorded σ) κ} (hg : Guests S probe listener)
    (h : Outputs e.recorded probe r listener s j content w) :
    ∃ (before running : List (EngineStep σ)) (c d : EngineStep σ),
      Span e S j.toWorld (before ++ c :: (running ++ [d])) w.toWorld ∧
      Purged (namesOf r s).output before ∧
      (∃ arguments, c.act = .execute arguments ∧ ∀ x ∈ running, x.act.IsOf arguments) ∧
      d.act = .read (namesOf r s).output ∧
      (e.read (namesOf r s).output).run d.before = (.returned content, d.after) ∧
      (Number.int content.size).lt j.runner.config.minOutput = false := by
  obtain ⟨arguments, m, ⟨n, b, ⟨a, ⟨i, hi, ha⟩, hb⟩, hm⟩, hf⟩ := h
  have entered : within e S j b :=
    (within e S).trans (within_calm ((calm_begin r).of_run hi.begun)) ((within e S).trans
      ((tracing_ready hg.bystanders trivial trivial).of_run ha)
      ((tracing_prepareFont fun _ => trivial).of_run hb))
  obtain ⟨⟨first, sfirst, -⟩, config⟩ := entered
  obtain ⟨lead, slead, purged⟩ := lead_purges (S := S) hm
  obtain ⟨memory, -⟩ := lead_eq (S := S) hm
  obtain ⟨_, v, hv, hf⟩ := Action.bind_returned hf
  obtain ⟨_, u, hu, hf⟩ := Action.bind_returned hf
  obtain ⟨c, running, srender, hc, hrunning⟩ := render_steps hg hv
  have rendered : Working e S (fun _ => True) [] .any m v :=
    (working_render hg.bystanders (fun _ => trivial) trivial fun _ _ => trivial).of_run hv
  have read : Calm S v u := (calm_enter _ _).of_run hu
  obtain ⟨x, sread, hx, returned, large⟩ := readOutput_steps (S := S) hf
  refine ⟨first ++ lead, running, c, x, ?_, purged.prepend, ⟨arguments, hc, hrunning⟩, hx, returned, ?_⟩
  · have := (((sfirst.append slead).append srender).append read.span).append sread
    simpa using this
  · have same : u.runner.config = j.runner.config :=
      read.config.trans (rendered.config.trans ((congrArg Prod.fst memory).trans config))
    rwa [same] at large

/-! ## The file of the output -/

theorem not_lt_int {m n : Int} (h : (Number.int m).lt (.int n) = false) : n ≤ m := by
  have : ¬ (m : Rat) < n := by simpa [Number.lt, Number.place?] using h
  exact Int.not_lt.1 fun h => this (Rat.intCast_lt_intCast.2 h)

/-- If neither the engine nor anyone else changes a file, it stays. -/
theorem file_of_within {path : String}
    (hS : ∀ h h', S.toEvolution h h' → (Host.keepsFile path).toEvolution h h')
    (outside : ∀ c : EngineStep σ, Made e c →
      (Host.keepsFile path).toEvolution c.before.host c.after.host)
    (h : within e S j k) : k.host.file? path = j.host.file? path := by
  obtain ⟨⟨new, span, -⟩, -⟩ := h
  exact span.linked.invariant (P := fun w => w.host.file? path = j.host.file? path)
    (fun _ _ _ hh kept => (hS _ _ hh).trans kept)
    (fun _ _ made kept => (outside _ made).trans kept) rfl

theorem writeOutput_returned {path : Path} {content : ByteArray} {j k : Job σ κ}
    (h : (writeOutput path content).run j = (.returned (), k)) :
    ∃ f, k.host.file? path.toString = some f ∧ f.content = content := by
  obtain ⟨_, i, -, h⟩ := Action.bind_returned h
  obtain ⟨t, ht, rfl⟩ := host_eq h
  exact Host.writeFile_returned ht

/-- `content` is what the engine had under the name when it was read, after a command and nothing but
its execution. There was nothing under the name when the command was started, unless the engine
refused to delete what was there. -/
structure Exported {e : Engine σ} (v : StorageView e) (name : String)
    (before running : List (EngineStep σ)) (c d : EngineStep σ) (content : ByteArray) : Prop where
  execution : ∃ arguments, c.act = .execute arguments ∧ ∀ x ∈ running, x.act.IsOf arguments
  read : d.act = .read name
  stored : v.entry d.before name = some content
  fresh : (∀ x ∈ before, x.act = .delete name →
    x.result = .returned () ∨ v.entry x.before name = none) → v.entry c.before name = none

theorem exported_of_outputs {v : StorageView e} {content : ByteArray} {w : Job (Recorded σ) κ}
    (readable : v.Readable) (hg : Guests v.spares probe listener)
    (h : Outputs e.recorded probe r listener s j content w) :
    ∃ (before running : List (EngineStep σ)) (c d : EngineStep σ),
      w.engine.steps = j.engine.steps ++ (before ++ c :: (running ++ [d])) ∧
      Exported v (namesOf r s).output before running c d content := by
  obtain ⟨before, running, c, d, span, ⟨a, x, b, rfl, hx, hb⟩, execution, read, returned, -⟩ :=
    outputs_steps hg h
  refine ⟨_, running, c, d, span.steps, execution, read, readable.read returned, fun accepted => ?_⟩
  obtain ⟨w₁, hbefore, hrest⟩ := span.linked.split
  cases hrest with
  | cons h₁ h₂ _ _ =>
    rw [StorageView.entry_of_spared h₁ h₂]
    exact StorageView.entry_of_purged readable hbefore hx
      (accepted x (List.mem_append_right _ (.head _)) hx) hb

end Job

namespace Job

/-- The state before a job whose source is an octet, on an engine in memory that has an entry under the
name of the output already. -/
def beforeOutput : Job (Recorded MemoryEngine) Unit where
  host := ((Host.writeFile "clip.mp4" ⟨#[0]⟩).run {}).2
  engine := { engine := { files := [("output_a.mp4", ⟨#[1]⟩)] } }
  runner := .ofConfig { loadLimit := 0, renderLimit := 0 }
  client := ()

/-- The run of that job. -/
def outputRun : Outcome JobResult × Job (Recorded MemoryEngine) Unit :=
  (run MemoryEngine.engine.recorded unknownLength octetClip none).run beforeOutput

end Job

end VideoExport
