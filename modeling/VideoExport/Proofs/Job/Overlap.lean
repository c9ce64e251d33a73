import VideoExport.Engine.Memory
import VideoExport.Proofs.Job.Execution
import VideoExport.Proofs.Job.Session

/-!
# No two executions at once

An engine executes one command at a time, so its record should be `Serial`. A run starts at most one
command, and is serial on an engine that is idle or not trusted (`run_serially`). It can leave its
execution in progress only by raising a failure, and then the engine loses its trust exactly if the
failure is that of a time limit (`run_leaves`). So jobs are serial as long as time limits are all that
cuts an execution short (`session_serial`); a listener that fails, say, does so too, and the next
execution overlaps (`overlaps_of_trusted`).
-/

set_option autoImplicit false

namespace VideoExport

variable {σ κ : Type}

namespace Job

variable {e : Engine σ} {S : HostFrame} {probe : DurationProbe κ} {r : JobRequest}
  {s : Settings} {listener : Option (ProgressListener κ)} {d : Number}

/-! ## The execution of a command -/

/-- An execution that was handed over to its end is no longer in progress. -/
theorem relay_idle {id : String} {arguments : List String} {limit : Option Number}
    {m u : Job (Recorded σ) κ}
    (h : (Deadline.relay limit .render (start e.recorded arguments) (handle id listener)).run m =
      (.returned (), u)) : inProgress u.engine.steps = false := by
  obtain ⟨t, x, t', v, hx, hf⟩ := Deadline.relay_returned (fun _ _ _ _ => handle_more) h
  obtain ⟨y, k, hy, hx⟩ := Action.bind_returned hx
  cases hx
  obtain ⟨w, hy, -⟩ := world_eq hy
  obtain ⟨z, hz, rfl⟩ := execute_recorded_eq hy
  have ended : (Action.zoom (·.toWorld) (fun (j : Job (Recorded σ) κ) w => { j with toWorld := w })
    (Action.recorded (.finish arguments) z.finish)).run v = (.returned (), u) := hf
  obtain ⟨w', hw', rfl⟩ := Action.zoom_eq ended
  obtain ⟨c, ha, hr, hs⟩ := Span.recorded (S := .any) hw' (.finish hz _)
  show inProgress w'.engine.steps = false
  rw [hs.steps, inProgress_append]
  obtain ⟨act, before, result, after⟩ := c
  cases ha
  cases hr
  rfl

/-- A command that was executed to its end is no longer in progress, and the engine keeps its trust.
If executing it fails, the trust falls exactly if that took too long. -/
theorem render_trace {arguments : List String} {id : String} {m u : Job (Recorded σ) κ}
    {q : Outcome Unit} (h : (render e.recorded id arguments listener).run m = (q, u))
    (ends : q ≠ .stalled) :
    (∃ new, Span e .any m.toWorld new u.toWorld ∧ StartsFirst new) ∧
      u.runner.config = m.runner.config ∧
      (q = .returned () → inProgress u.engine.steps = false ∧ u.runner.trusted = m.runner.trusted) ∧
      ∀ f, q = .raised f → u.runner.trusted = (m.runner.trusted && !f.isTimeLimit) := by
  have relayed {p : Outcome Unit} {t : Job (Recorded σ) κ}
      (h : (Deadline.relay (some m.runner.config.renderLimit) .render (start e.recorded arguments)
        (handle id listener)).run m = (p, t)) :
      (∃ new, Span e .any m.toWorld new t.toWorld ∧ StartsFirst new) ∧
        t.runner.config = m.runner.config ∧ t.runner.trusted = m.runner.trusted := by
    have others : Bystanders .any (fun _ => pure none) listener (.ofString "") := .any _ _ _
    have worked : Working e .any (fun _ => True) [] .still m t :=
      (working_relay _ others trivial fun _ _ => trivial).of_run h
    obtain ⟨new, span, commanded⟩ := relay_commanded (e := e) id arguments
      (some m.runner.config.renderLimit) others m
    rw [h] at span
    exact ⟨⟨new, span, commanded.startsFirst⟩, worked.config, worked.trusted⟩
  obtain ⟨_, _, hc, h⟩ := Action.bind_total h ⟨_, _, config_run m⟩
  cases hc
  rcases distrusting_cases h with ⟨⟨⟩, rfl, hx⟩ | ⟨f, t, rfl, hx, hu, hr⟩ | ⟨rfl, -⟩
  · obtain ⟨traced, config, trusted⟩ := relayed hx
    exact ⟨traced, config, fun _ => ⟨relay_idle hx, trusted⟩, nofun⟩
  · obtain ⟨traced, config, trusted⟩ := relayed hx
    refine ⟨?_, ?_, nofun, ?_⟩
    · rwa [← hu] at traced
    · rw [hr]
      exact config
    · rintro _ ⟨⟩
      rw [hr, ← trusted]
  · exact absurd rfl ends

/-! ## The steps of a run -/

/-- Steps that neither start nor end an execution, while the configuration and the trust in the
engine stay. -/
def plainly (e : Engine σ) : Evolution (Job (Recorded σ) κ) :=
  (tracing e .any EngineAct.Plain).and (.same fun j => j.runner.trusted)

section
variable {α : Type} {j k : Job (Recorded σ) κ}

theorem plainly_intro (traced : traced e .any EngineAct.Plain j.toWorld k.toWorld)
    (config : k.runner.config = j.runner.config) (trusted : k.runner.trusted = j.runner.trusted) :
    plainly e j k := ⟨⟨traced, config⟩, trusted⟩

theorem plainly_calm (h : Calm .any j k) : plainly e j k :=
  plainly_intro (traced_of_host h.engine h.host) h.config h.trusted

theorem plainly_working {N : List String} (h : Working e .any EngineAct.Plain N .still j k) :
    plainly e j k := plainly_intro h.storage.1 h.config h.trusted

theorem plainly_memory {new : List (EngineStep σ)} {names : List String}
    (span : Span e .any j.toWorld new k.toWorld) (acts : new.map (·.act) = Storage.deletions names)
    (config : k.runner.config = j.runner.config) (trusted : k.runner.trusted = j.runner.trusted) :
    plainly e j k := by
  refine plainly_intro ⟨new, span, fun c hc => ?_⟩ config trusted
  have hm : c.act ∈ Storage.deletions names := acts ▸ List.mem_map_of_mem hc
  obtain ⟨n, -, ha⟩ := List.mem_map.1 hm
  rw [← ha]
  trivial

/-- Besides executing its command, a job only stages, reads and deletes in working storage. -/
theorem inStorage_trace {b k : Job (Recorded σ) κ} {o : Outcome ByteArray}
    (h : (inStorage e.recorded r s d listener).run b = (o, k)) (ends : o ≠ .stalled) :
    ∃ m u, plainly e b m ∧ plainly e u k ∧
      (u = m ∨ ∃ arguments q, (render e.recorded r.id arguments listener).run m = (q, u) ∧
        q ≠ .stalled ∧ ∀ f, q = .raised f → o = .raised f) := by
  obtain ⟨c, u, hc, hu, hr, last, hlast, slast⟩ := inStorage_eq (S := .any) h ends
  have lead : plainly e b c := by
    obtain ⟨_, i, hi, hc⟩ := Action.bind_returned hc
    obtain ⟨-, unclaimed, hm, span⟩ := opening_eq (S := .any) (e := e) hi
    obtain ⟨-, -, hm', new, hn, span'⟩ := claimNames_eq (S := .any) hc nofun unclaimed
    obtain ⟨config, rest⟩ := Prod.mk.inj (hm'.trans hm)
    exact plainly_memory (span.append span') hn config (Prod.mk.inj rest).1
  have trail : plainly e u k :=
    plainly_memory slast hlast (congrArg Runner.config hr) (congrArg Runner.trusted hr)
  have others : Bystanders .any (fun _ => pure none) listener r.output := .any _ _ _
  have staging : (stageFiles e.recorded r s (imageOf r s) (namesOf r s) d :
      Action (Job (Recorded σ) κ) (List String)).Follows
      (working e .any EngineAct.Plain (namesOf r s).all .still) :=
    working_stageFiles r s _ d (fun _ h => h) fun _ _ _ => trivial
  rcases transcode_cases hu ends with ⟨f, hf, -⟩ | ⟨arguments, m, hm, h⟩
  · exact ⟨u, u, (plainly e).trans lead (plainly_working (staging.of_run hf)), trail, .inl rfl⟩
  · have staged : plainly e c m := by
      obtain ⟨a, i, hi, hm⟩ := Action.bind_returned hm
      obtain ⟨_, i', hi', hm⟩ := Action.bind_returned hm
      cases hm
      exact (plainly e).trans (plainly_working (staging.of_run hi))
        (plainly_calm ((calm_enter _ _).of_run hi'))
    rcases h with ⟨f, hf, rfl⟩ | ⟨v, w, hv, hw, hk⟩
    · exact ⟨m, u, (plainly e).trans lead staged, trail,
        .inr ⟨arguments, _, hf, nofun, fun _ h => by cases h; rfl⟩⟩
    · have collected : plainly e w u := plainly_working
        ((working_collect (N := []) others trivial).of_run hk)
      have entered : plainly e v w := plainly_calm ((calm_enter _ _).of_run hw)
      exact ⟨m, v, (plainly e).trans lead staged,
        (plainly e).trans entered ((plainly e).trans collected trail),
        .inr ⟨arguments, _, hv, nofun, nofun⟩⟩

theorem renew_idle {q : Outcome Unit} (renewing : j.runner.config.renewEngine = true)
    (guarded : inProgress j.engine.steps = true → j.runner.trusted = false)
    (h : (renew e.recorded).run j = (q, k)) :
    k.runner.config = j.runner.config ∧
      (q = .returned () → inProgress k.engine.steps = false ∧ k.runner.trusted = true) ∧
      (q ≠ .returned () → k.runner.trusted = false) := by
  rcases renew_cases (S := .any) h with ⟨rfl, rfl, ht⟩ | ⟨ht, -, c, ha, hr, span, hret, hfail⟩
  · have trusted : k.runner.trusted = true := by
      rcases ht with ht | ht
      · exact ht
      · rw [renewing] at ht
        cases ht
    refine ⟨rfl, fun _ => ⟨?_, trusted⟩, fun h => absurd rfl h⟩
    rw [trusted] at guarded
    simpa using guarded
  · by_cases hq : q = .returned ()
    · have runner := hret hq
      refine ⟨by rw [runner], fun _ => ⟨?_, by rw [runner]⟩, fun h => absurd hq h⟩
      -- a reset that returns ends whatever was in progress
      rw [span.steps, inProgress_append]
      obtain ⟨act, before, result, after⟩ := c
      cases ha
      obtain rfl : result = .returned () := hr.trans hq
      rfl
    · have runner := hfail hq
      exact ⟨by rw [runner], fun h => absurd h hq, fun _ => by rw [runner]; exact ht⟩

/-- An engine that is busy only if it is not trusted is idle and trusted once it is ready. If getting
it ready fails, it is still busy only if it is not trusted. -/
theorem ready_idle {a : Job (Recorded σ) κ} {p : Outcome Number}
    (renewing : j.runner.config.renewEngine = true)
    (guarded : inProgress j.engine.steps = true → j.runner.trusted = false)
    (h : (ready e.recorded probe r s).run j = (p, a)) (ends : p ≠ .stalled) :
    a.runner.config = j.runner.config ∧
      (inProgress a.engine.steps = true → a.runner.trusted = false) ∧
      ∀ d, p = .returned d → inProgress a.engine.steps = false ∧ a.runner.trusted = true := by
  have engine {q : Outcome Unit} {b : Job (Recorded σ) κ}
      (h : (ensureEngine e.recorded).run j = (q, b)) (hq : q ≠ .stalled) :
      b.runner.config = j.runner.config ∧
        (inProgress b.engine.steps = true → b.runner.trusted = false) ∧
        (q = .returned () → inProgress b.engine.steps = false ∧ b.runner.trusted = true) := by
    rcases Action.bind_eq h with ⟨_, i, hi, h⟩ | ⟨f, hi, rfl⟩ | ⟨-, rfl⟩
    · obtain ⟨config, hidle, -⟩ := renew_idle renewing guarded hi
      obtain ⟨idle, trusted⟩ := hidle rfl
      rcases ensureLoaded_cases (S := .any) h with ⟨-, -, rfl⟩ | ⟨-, c, ha, span, -, hret, hfail⟩
      · exact ⟨config, fun h => absurd (idle.symm.trans h) nofun, fun _ => ⟨idle, trusted⟩⟩
      · have idle' : inProgress b.engine.steps = false := by
          rw [span.steps, inProgress_append, idle]
          refine foldl_quiet fun d hd => ?_
          rw [List.mem_singleton.1 hd, ha]
          exact nofun
        have config' : b.runner.config = i.runner.config := by
          match q, hq with
          | .returned (), _ => rw [hret rfl]
          | .raised f, _ => rw [hfail f rfl]
          | .stalled, hq => exact absurd rfl hq
        refine ⟨config'.trans config, fun h => absurd (idle'.symm.trans h) nofun, fun h => ?_⟩
        exact ⟨idle', by rw [hret h]; exact trusted⟩
    · obtain ⟨config, -, hfail⟩ := renew_idle renewing guarded hi
      exact ⟨config, fun _ => hfail nofun, nofun⟩
    · exact absurd rfl hq
  rcases ready_cases (S := .any) (.any probe none (.ofString "")) h ends with
    ⟨f, hf, rfl⟩ | ⟨d, b, hb, rfl, hcalm⟩
  · obtain ⟨config, guarded', -⟩ := engine hf nofun
    exact ⟨config, guarded', by rintro _ ⟨⟩⟩
  · obtain ⟨config, -, hidle⟩ := engine hb nofun
    obtain ⟨idle, trusted⟩ := hidle rfl
    rw [hcalm.config, hcalm.trusted, hcalm.engine]
    exact ⟨config, fun h => absurd (idle.symm.trans h) nofun, fun _ _ => ⟨idle, trusted⟩⟩

/-- A trusted engine is not reset to be ready. -/
theorem ready_plain {a : Job (Recorded σ) κ} {p : Outcome Number}
    (trusted : j.runner.trusted = true)
    (h : (ready e.recorded probe r s).run j = (p, a)) (ends : p ≠ .stalled) :
    traced e .any EngineAct.Plain j.toWorld a.toWorld := by
  have engine {q : Outcome Unit} {b : Job (Recorded σ) κ}
      (h : (ensureEngine e.recorded).run j = (q, b)) (hq : q ≠ .stalled) :
      traced e .any EngineAct.Plain j.toWorld b.toWorld := by
    have kept {q : Outcome Unit} {i : Job (Recorded σ) κ}
        (h : (renew e.recorded).run j = (q, i)) : q = .returned () ∧ i = j := by
      rcases renew_cases (S := .any) h with ⟨hq, hi, -⟩ | ⟨ht, -⟩
      · exact ⟨hq, hi⟩
      · rw [trusted] at ht
        cases ht
    rcases Action.bind_eq h with ⟨_, i, hi, hl⟩ | ⟨f, hi, -⟩ | ⟨-, rfl⟩
    · obtain ⟨-, rfl⟩ := kept hi
      rcases ensureLoaded_cases (S := .any) hl with ⟨-, -, rfl⟩ | ⟨-, c, ha, span, -⟩
      · exact (traced e .any EngineAct.Plain).refl _
      · refine ⟨[c], span, fun d hd => ?_⟩
        rw [List.mem_singleton.1 hd, ha]
        trivial
    · obtain ⟨⟨⟩, -⟩ := kept hi
    · exact absurd rfl hq
  rcases ready_cases (S := .any) (.any probe none (.ofString "")) h ends with
    ⟨f, hf, rfl⟩ | ⟨d, b, hb, rfl, hcalm⟩
  · exact engine hf nofun
  · exact (traced e .any EngineAct.Plain).trans (engine hb nofun)
      (traced_of_host hcalm.engine hcalm.host)

theorem prepareFont_plainly {o : Outcome Unit}
    (h : (prepareFont e.recorded r s).run j = (o, k)) (ends : o ≠ .stalled) : plainly e j k := by
  have plain : tracing e .any EngineAct.Plain j k :=
    (tracing_prepareFont fun _ => trivial).of_run h
  obtain ⟨-, ⟨-, rfl⟩ | ⟨-, present, hf⟩⟩ := prepareFont_eq h ends
  · exact (plainly e).refl k
  · obtain ⟨_, -, -, runner, -⟩ := ensureFont_eq (S := .any) hf nofun
    exact plainly_intro plain.1 plain.2 (by rw [runner])

theorem plainly_trusted (h : plainly e j k) : k.runner.trusted = j.runner.trusted := h.2

theorem plainly_traced (h : plainly e j k) : traced e .any EngineAct.Plain j.toWorld k.toWorld :=
  h.1.1

theorem plainly_quiet (h : plainly e j k) : traced e .any (¬ ·.Executes) j.toWorld k.toWorld :=
  quiet_of_plain (plainly_traced h)

/-- A command was started between two states. -/
def Started (j k : Job (Recorded σ) κ) : Prop :=
  ∃ new, k.engine.steps = j.engine.steps ++ new ∧ ∃ c ∈ new, c.act.Executes

theorem not_started_of_quiet (h : traced e .any (¬ ·.Executes) j.toWorld k.toWorld) :
    ¬ Started j k := by
  obtain ⟨new, span, quiet⟩ := h
  rintro ⟨new', hs, c, hc, he⟩
  exact quiet c (span.unique hs ▸ hc) he

theorem Started.extend {m u : Job (Recorded σ) κ} {P Q : EngineAct → Prop}
    (before : traced e S P j.toWorld m.toWorld) (h : Started m u)
    (after : traced e S Q u.toWorld k.toWorld) : Started j k := by
  obtain ⟨pre, hpre, -⟩ := before
  obtain ⟨new, hnew, c, hc, hexec⟩ := h
  obtain ⟨post, hpost, -⟩ := after
  refine ⟨pre ++ (new ++ post), ?_, c, ?_, hexec⟩
  · rw [hpost.steps, hnew, hpre.steps, List.append_assoc, List.append_assoc]
  · exact List.mem_append_right _ (List.mem_append_left _ hc)

/-! ### Runs that may never end -/

/-- Once it is ready, a run starts one command at most. -/
theorem starts_rest {o : Outcome JobResult}
    (h : (rest e.recorded r s d listener).run j = (o, k)) :
    ∃ new, Span e .any j.toWorld new k.toWorld ∧ starts new ≤ 1 := by
  have quiet {lead : List (EngineStep σ)} (leads : ∀ x ∈ lead, Leads x.act) : starts lead = 0 :=
    starts_eq_zero.2 fun x hx => (leads x hx).quiet
  cases rest_commanded h with
  | none leads =>
    obtain ⟨new, span, leads⟩ := leads
    exact ⟨new, span, Nat.le_succ_of_le (Nat.le_of_eq (quiet leads))⟩
  | one _ _ leads executing =>
    obtain ⟨lead, slead, leads⟩ := leads
    obtain ⟨new, span, once⟩ := executing.starts_le
    refine ⟨lead ++ new, slead.append span, ?_⟩
    rwa [starts_append, quiet leads, Nat.zero_add]

/-- Even a run that never ends executes one command at a time, if its engine is busy at first only
when it is not trusted. -/
theorem run_serially {o : Outcome JobResult} (renewing : j.runner.config.renewEngine = true)
    (guarded : inProgress j.engine.steps = true → j.runner.trusted = false)
    (ran : (run e.recorded probe r listener).run j = (o, k)) : serially j.toWorld k.toWorld := by
  rcases run_split (S := .any) ran with
    rfl | ⟨s, i, p, a, hi, hp, h⟩
  · exact serially.refl _
  · have begun : Calm .any j i := (calm_begin r).of_run hi.begun
    have readied : (ready e.recorded probe r s : Action (Job (Recorded σ) κ) Number).Follows
        (tracing e .any (¬ ·.Executes)) :=
      tracing_ready (.any _ none (.ofString "")) nofun nofun
    have lead : serially j.toWorld a.toWorld := by
      refine serially.trans ?_ (serially_of_quiet (readied.of_run hp).1)
      exact serially_of_quiet (e := e) (traced_of_host begun.engine begun.host)
    rcases h with ⟨d, rfl, h⟩ | ⟨-, calm⟩
    · have idle : inProgress a.engine.steps = false := by
        refine ((ready_idle ?_ (fun busy => ?_) hp nofun).2.2 d rfl).1
        · rw [begun.config]
          exact renewing
        · rw [begun.engine] at busy
          rw [begun.trusted]
          exact guarded busy
      obtain ⟨new, span, hnew⟩ := starts_rest h
      refine serially.trans lead ⟨new, span.steps, ?_⟩
      rw [idle]
      exact serial_of_starts hnew
    · exact serially.trans lead (serially_of_quiet (e := e) (traced_of_host calm.engine calm.host))

/-- What is in progress and was not before has been started. -/
theorem started_of_busy {m u : Job (Recorded σ) κ} {new : List (EngineStep σ)}
    (idle : inProgress m.engine.steps = false) (span : Span e S m.toWorld new u.toWorld)
    (busy : inProgress u.engine.steps = true) : Started m u := by
  by_cases quiet : ∀ c ∈ new, ¬ c.act.Executes
  · rw [idle_of_quiet ⟨new, span, quiet⟩ idle] at busy
    cases busy
  · simp only [Classical.not_forall, Classical.not_not] at quiet
    obtain ⟨c, hc, hexec⟩ := quiet
    exact ⟨new, span.steps, c, hc, hexec⟩

/-- An engine is busy after a run only if it was before, without trust, and the run has not started a
command, or if a failure has cut the execution of the run short. Then it is trusted unless that is
the failure of a time limit. -/
theorem run_leaves {o : Outcome JobResult} (renewing : j.runner.config.renewEngine = true)
    (guarded : inProgress j.engine.steps = true → j.runner.trusted = false)
    (ran : (run e.recorded probe r listener).run j = (o, k)) (ends : o ≠ .stalled)
    (busy : inProgress k.engine.steps = true) :
    ¬ Started j k ∧ k.runner.trusted = false ∨
      Started j k ∧
        ∃ f tail, o = .raised (.exportFailed f tail) ∧ k.runner.trusted = !f.isTimeLimit := by
  rcases run_phases (S := .any) (.any _ _ _) ran ends with ⟨-, rfl⟩ | ⟨s, i, hi, phases⟩
  · exact .inl ⟨not_started_of_quiet (e := e) ((traced e .any _).refl _), guarded busy⟩
  have begun : Calm .any j i := (calm_begin r).of_run hi.begun
  have quiet {q : Outcome Number} {a : Job (Recorded σ) κ}
      (h : (ready e.recorded probe r s).run i = (q, a)) :
      traced e .any (¬ ·.Executes) j.toWorld a.toWorld := by
    have ready : (ready e.recorded probe r s : Action (Job (Recorded σ) κ) Number).Follows
      (tracing e .any (¬ ·.Executes)) := tracing_ready (.any _ none (.ofString "")) nofun nofun
    exact (traced e .any _).trans (traced_of_host begun.engine begun.host) (ready.of_run h).1
  have renewing' : i.runner.config.renewEngine = true := by rw [begun.config, renewing]
  have guarded' : inProgress i.engine.steps = true → i.runner.trusted = false := by
    rw [begun.engine, begun.trusted]
    exact guarded
  rcases phases with ⟨f, a, ha, calm⟩ | ⟨d, a, b, p, t, ha, hb, ht, hp, calm, cause⟩
  · refine .inl ⟨not_started_of_quiet (e := e) ?_, ?_⟩
    · exact (traced e .any _).trans (quiet ha) (traced_of_host calm.engine calm.host)
    · rw [calm.trusted]
      rw [calm.engine] at busy
      exact (ready_idle renewing' guarded' ha nofun).2.1 busy
  · obtain ⟨idle, trusted⟩ := (ready_idle renewing' guarded' ha nofun).2.2 d rfl
    obtain ⟨m, u, hm, hu, hrender⟩ := inStorage_trace ht hp
    have hbm : plainly e a m := (plainly e).trans (prepareFont_plainly hb nofun) hm
    have huk : plainly e u k := (plainly e).trans hu (plainly_calm calm)
    have idle' : inProgress m.engine.steps = false := idle_of_quiet (plainly_quiet hbm) idle
    have busy' : inProgress u.engine.steps = true := by
      by_cases busy' : inProgress u.engine.steps = true
      · exact busy'
      · rw [idle_of_quiet (plainly_quiet huk) (Bool.eq_false_iff.2 busy')] at busy
        cases busy
    rcases hrender with rfl | ⟨arguments, q, hq, hne, hfail⟩
    · rw [idle'] at busy'
      cases busy'
    · obtain ⟨⟨new, span, -⟩, -, hret, hraise⟩ := render_trace hq hne
      match q, hne with
      | .returned (), _ =>
        rw [(hret rfl).1] at busy'
        cases busy'
      | .raised f, _ =>
        obtain ⟨tail, ho⟩ := cause f (hfail f rfl)
        have lead := (traced e .any _).trans (quiet ha) (plainly_quiet hbm)
        refine .inr ⟨(started_of_busy idle' span busy').extend lead (plainly_traced huk), f, tail,
          ho, ?_⟩
        rw [plainly_trusted huk, hraise f rfl, plainly_trusted hbm, trusted, Bool.true_and]
      | .stalled, hne => exact absurd rfl hne

/-- While an execution is in progress, no other one can be started without an overlap. -/
theorem not_serial_of_busy {m u : Job (Recorded σ) κ} {new : List (EngineStep σ)}
    (busy : inProgress j.engine.steps = true)
    (before : traced e .any EngineAct.Plain j.toWorld m.toWorld)
    (span : Span e .any m.toWorld new u.toWorld) (first : StartsFirst new)
    (after : traced e .any EngineAct.Plain u.toWorld k.toWorld) (started : Started j k) :
    ¬ Serial false k.engine.steps := by
  obtain ⟨pre, hpre, ppre⟩ := before
  obtain ⟨post, hpost, ppost⟩ := after
  obtain ⟨all, hall, c, hc, hexec⟩ := started
  have steps : k.engine.steps = j.engine.steps ++ (pre ++ (new ++ post)) := by
    rw [hpost.steps, span.steps, hpre.steps, List.append_assoc, List.append_assoc]
  rw [List.append_cancel_left (hall.symm.trans steps)] at hc
  -- only the execution itself can have started a command, with its first step
  have hnew : c ∈ new := by
    rcases List.mem_append.1 hc with hc | hc
    · exact absurd hexec (ppre c hc).quiet
    · rcases List.mem_append.1 hc with hc | hc
      · exact hc
      · exact absurd hexec (ppost c hc).quiet
  intro serial
  rw [steps] at serial
  have rest := (serial_append.1 (serial_append.1 serial).2).2
  have busy' : pre.foldl EngineStep.progress (inProgress j.engine.steps) = true := by
    rw [foldl_plain ppre, busy]
  rw [show List.foldl EngineStep.progress false j.engine.steps = inProgress j.engine.steps from rfl,
    busy'] at rest
  cases new with
  | nil => exact absurd hnew List.not_mem_nil
  | cons a new =>
    rcases List.mem_cons.1 hnew with rfl | hc
    · exact absurd (rest.1 hexec) nofun
    · exact first c hc hexec

/-- A run on a trusted engine that is busy overlaps as soon as it starts its command. -/
theorem overlaps_of_trusted {o : Outcome JobResult} (trusted : j.runner.trusted = true)
    (busy : inProgress j.engine.steps = true)
    (ran : (run e.recorded probe r listener).run j = (o, k)) (ends : o ≠ .stalled)
    (started : Started j k) : ¬ Serial false k.engine.steps := by
  have plain {m : Job (Recorded σ) κ}
      (h : traced e .any EngineAct.Plain j.toWorld m.toWorld)
      (h' : traced e .any EngineAct.Plain m.toWorld k.toWorld) : ¬ Started j k :=
    not_started_of_quiet (quiet_of_plain ((traced e .any _).trans h h'))
  rcases run_phases (S := .any) (.any _ _ _) ran ends with ⟨-, rfl⟩ | ⟨s, i, hi, phases⟩
  · exact absurd started (plain ((traced e .any _).refl _) ((traced e .any _).refl _))
  have begun : plainly e j i := plainly_calm ((calm_begin r).of_run hi.begun)
  have trusted' : i.runner.trusted = true := (plainly_trusted begun).trans trusted
  have lead {q : Outcome Number} {a : Job (Recorded σ) κ}
      (h : (ready e.recorded probe r s).run i = (q, a)) (hq : q ≠ .stalled) :
      traced e .any EngineAct.Plain j.toWorld a.toWorld :=
    (traced e .any _).trans (plainly_traced begun) (ready_plain trusted' h hq)
  rcases phases with ⟨f, a, ha, calm⟩ | ⟨d, a, b, p, t, ha, hb, ht, hp, calm, -⟩
  · exact absurd started (plain (lead ha nofun) (plainly_traced (plainly_calm calm)))
  · obtain ⟨m, u, hm, hu, hrender⟩ := inStorage_trace ht hp
    have before : traced e .any EngineAct.Plain j.toWorld m.toWorld :=
      (traced e .any _).trans (lead ha nofun)
        (plainly_traced ((plainly e).trans (prepareFont_plainly hb nofun) hm))
    have after : traced e .any EngineAct.Plain u.toWorld k.toWorld :=
      plainly_traced ((plainly e).trans hu (plainly_calm calm))
    rcases hrender with rfl | ⟨arguments, q, hq, hne, -⟩
    · exact absurd started (plain before after)
    · obtain ⟨⟨new, span, first⟩, -⟩ := render_trace hq hne
      exact not_serial_of_busy busy before span first after started

end

/-! ## Jobs one after another -/

/-- If the run has left its own execution in progress, a time limit has cut it short. -/
def Timely (o : Outcome JobResult) (j k : Job (Recorded σ) κ) : Prop :=
  inProgress k.engine.steps = true → Started j k →
    ∃ f tail, o = .raised (.exportFailed f tail) ∧ f.isTimeLimit = true

/-- As long as only time limits cut executions short, jobs execute one command at a time, and the
engine is busy between them only if it is not trusted. -/
theorem session_serial {j k : Job (Recorded σ) κ} (renewing : j.runner.config.renewEngine = true)
    (serial : Serial false j.engine.steps) (idle : inProgress j.engine.steps = false)
    (session : Session e Timely j k) :
    Serial false k.engine.steps ∧ k.runner.config.renewEngine = true ∧
      (inProgress k.engine.steps = true → k.runner.trusted = false) := by
  induction session with
  | start => exact ⟨serial, renewing, fun busy => absurd (idle.symm.trans busy) nofun⟩
  | pause _ steps runner _ ih =>
    rw [steps, runner]
    exact ih
  | run _ ran ends timely ih =>
    obtain ⟨serial, renewing, guarded⟩ := ih
    obtain ⟨new, hsteps, hnew⟩ := run_serially renewing guarded ran
    refine ⟨by rw [hsteps]; exact serial_append.2 ⟨serial, hnew⟩,
      by rw [run_config ran]; exact renewing, fun busy => ?_⟩
    rcases run_leaves renewing guarded ran ends busy with ⟨-, trusted⟩ | ⟨started, f, tail, ho, trusted⟩
    · exact trusted
    · obtain ⟨f', tail', ho', limit⟩ := timely busy started
      cases ho.symm.trans ho'
      rw [trusted, limit]
      rfl

/-- Jobs on an engine that is idle at first execute one command at a time as long as only time limits
cut executions short, and so does even a last one that never ends. A run that leaves its execution in
progress has raised a failure, and costs the engine its trust exactly if that is a time limit; after
any other failure, the next run that starts its command overlaps. -/
theorem overlap_exactly_after_other_failures {j : Job (Recorded σ) κ}
    (renewing : j.runner.config.renewEngine = true) (serial : Serial false j.engine.steps)
    (idle : inProgress j.engine.steps = false) :
    ∀ k, Session e Timely j k → Serial false k.engine.steps ∧
      ∀ probe r listener o l, (run e.recorded probe r listener).run k = (o, l) →
        Serial false l.engine.steps ∧
        (o ≠ .stalled → inProgress l.engine.steps = true → Started k l →
          ∃ f tail, o = .raised (.exportFailed f tail) ∧
            (l.runner.trusted = false ↔ f.isTimeLimit = true) ∧
            (f.isTimeLimit = false → ∀ probe' r' listener' o' m,
              (run e.recorded probe' r' listener').run l = (o', m) → o' ≠ .stalled → Started l m →
              ¬ Serial false m.engine.steps)) := by
  intro k session
  obtain ⟨serial', renewing', guarded⟩ := session_serial renewing serial idle session
  refine ⟨serial', fun probe r listener o l ran => ⟨?_, fun ends busy started => ?_⟩⟩
  · obtain ⟨new, hsteps, hnew⟩ := run_serially renewing' guarded ran
    rw [hsteps]
    exact serial_append.2 ⟨serial', hnew⟩
  · rcases run_leaves renewing' guarded ran ends busy with ⟨hn, -⟩ | ⟨-, f, tail, ho, trusted⟩
    · exact absurd started hn
    · refine ⟨f, tail, ho, by rw [trusted]; simp,
        fun other probe' r' listener' o' m ran' ends' => ?_⟩
      exact overlaps_of_trusted (by rw [trusted, other]; rfl) busy ran' ends'

/-- A job whose source is an octet. -/
def octetClip : JobRequest where
  id := "a"
  source := ⟨.ofString "clip.mp4", ""⟩
  settings := .record Settings.default.record
  output := .ofString "out.mp4"

/-- The state before the jobs on an engine in memory whose first execution tells its progress once and
then never ends. -/
def beforeHanging : Job (Recorded MemoryEngine) Unit where
  host := ((Host.writeFile "clip.mp4" ⟨#[0]⟩).run {}).2
  engine := { engine := { executions := [{ steps := [.emits (.progress {}), .hangs] }] } }
  runner := .ofConfig { loadLimit := 0, renderLimit := 0 }
  client := ()

/-- A run whose listener fails at the progress that is told. -/
def failingRun : Outcome JobResult × Job (Recorded MemoryEngine) Unit :=
  (run MemoryEngine.engine.recorded (fun _ => pure none) octetClip
    (some fun _ => .raise .nullCharacter)).run beforeHanging

theorem overlap_exactly_after_failing_listener :
    ∃ f tail, failingRun.1 = .raised (.exportFailed f tail) ∧
      (failingRun.2.runner.trusted = false ↔ f.isTimeLimit = true) := by
  have busy : inProgress failingRun.2.engine.steps = true := by decide +kernel
  have ends : failingRun.1 ≠ .stalled := Outcome.ne_stalled (by decide +kernel)
  have started : Started beforeHanging failingRun.2 :=
    ⟨failingRun.2.engine.steps, (List.nil_append _).symm, by
      have : failingRun.2.engine.steps.any (fun c => decide c.act.Executes) = true := by
        decide +kernel
      simpa using this⟩
  obtain ⟨-, h⟩ := overlap_exactly_after_other_failures (e := MemoryEngine.engine)
    (j := beforeHanging) rfl trivial rfl beforeHanging .start
  obtain ⟨f, tail, ho, iff, -⟩ := (h (fun _ => pure none) octetClip
    (some fun _ => .raise .nullCharacter) failingRun.1 failingRun.2 (Prod.eta failingRun).symm).2
    ends busy started
  exact ⟨f, tail, ho, iff⟩

/-- A listener that fails leaves its execution in progress on a trusted engine, and the next job
starts another one. -/
theorem failing_listener_overlaps :
    beforeHanging.runner.config.renewEngine = true ∧
      inProgress beforeHanging.engine.steps = false ∧ inProgress failingRun.2.engine.steps = true ∧
      failingRun.2.runner.trusted = true ∧
      ¬ Serial false ((run MemoryEngine.engine.recorded (fun _ => pure none) octetClip none).run
        failingRun.2).2.engine.steps := by
  refine ⟨rfl, rfl, ?_, ?_, ?_⟩ <;> decide +kernel

end Job

end VideoExport
