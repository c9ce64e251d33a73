import Mathlib.Data.List.Induction
import VideoExport.Proofs.Engine.Lines
import VideoExport.Proofs.Job.Execution
import VideoExport.Proofs.Job.Telling

/-!
# The log that a run keeps

A run keeps the last lines of its engine's log, as many as its configuration says, of the events that it
was handed (`Gathers`): nothing else in a run changes the log, and every event that is handed over is a step
of the engine. A failure shows the last of these lines (`run_logTail`). How many it shows is configured
too, and a number of zero shows all that are kept.
-/

set_option autoImplicit false

namespace VideoExport

variable {σ κ : Type}

/-- An event is about to be handed over. -/
def EngineAct.Emits : EngineAct → Bool
  | .emit _ => true
  | _ => false

/-- No event is handed over. -/
def EngineAct.Silent (act : EngineAct) : Prop := act.Emits = false

/-- How many events were handed over in some steps. -/
def handedOver (steps : List (EngineStep σ)) : Nat := steps.countP (·.act.Emits)

namespace Job

open LocalEngine (lastLines lastLines_append lastLines_lastLines lastLines_suffix length_lastLines)

/-! ## Lines -/

/-- The lines that are kept of some that came one after another. -/
def keptLines (limit : Option Int) (lines : List String) : List String :=
  lines.foldl (keepLine limit) []

theorem keptLines_snoc (limit : Option Int) (lines : List String) (line : String) :
    keptLines limit (lines ++ [line]) = keepLine limit (keptLines limit lines) line := by
  simp [keptLines]

theorem keptLines_eq (b : Nat) (lines : List String) :
    keptLines (some (b : Int)) lines = lastLines b lines := by
  induction lines using List.reverseRecOn with
  | nil => simp [keptLines, lastLines]
  | append_singleton lines line ih =>
    rw [keptLines_snoc, ih, ← lastLines_append]
    rfl

/-- `tail` are the last of some lines: of those that are kept as many as are to be shown, but all of
them if none are. -/
structure Tail (kept shown : Nat) (lines tail : List String) : Prop where
  last : tail <:+ lines
  length : tail.length =
    if shown = 0 then min kept lines.length else min (min shown kept) lines.length

theorem tail_keptLines (b t : Nat) (lines : List String) :
    Tail b t lines (tailLines (t : Int) (keptLines (some (b : Int)) lines)) := by
  rw [keptLines_eq]
  by_cases none : t = 0
  · subst none
    refine ⟨lastLines_suffix b lines, ?_⟩
    simp [tailLines, length_lastLines]
  · have shown : tailLines (t : Int) (lastLines b lines) = lastLines t (lastLines b lines) := by
      simp [tailLines, lastLines, Nat.pos_of_ne_zero none]
    rw [shown]
    refine ⟨(lastLines_suffix t _).trans (lastLines_suffix b lines), ?_⟩
    rw [if_neg none]
    simp only [length_lastLines]
    omega

/-! ## What is handed over -/

variable {e : Engine σ} {probe : DurationProbe κ} {r : JobRequest} {s : Settings} {c : Config}
  {listener : Option (ProgressListener κ)} {old : List (EngineStep σ)} {n : Nat}
  {events : List EngineEvent} {j k : Job (Recorded σ) κ}

/-- Of the events so far, `n` were handed over since the `old` steps of the engine, and the log keeps
their last lines. -/
structure Gathers (c : Config) (old : List (EngineStep σ)) (n : Nat) (events : List EngineEvent)
    (j : Job (Recorded σ) κ) : Prop where
  config : j.runner.config = c
  count : ∃ new, j.engine.steps = old ++ new ∧ handedOver new = n
  log : j.log = keptLines c.logBuffer (events.filterMap EngineEvent.line?)

/-- No event is handed over, and the log stays as it is. -/
def unlogged (e : Engine σ) : Evolution (Job (Recorded σ) κ) :=
  (tracing e .any EngineAct.Silent).and (.same Job.log)

theorem Gathers.keep (h : Gathers c old n events j) (hk : unlogged e j k) :
    Gathers c old n events k := by
  obtain ⟨⟨⟨more, span, quiet⟩, config⟩, log⟩ := hk
  obtain ⟨new, steps, count⟩ := h.count
  refine ⟨config.trans h.config, ⟨new ++ more, ?_, ?_⟩, log.trans h.log⟩
  · rw [span.steps, steps, List.append_assoc]
  · have none : handedOver more = 0 := by
      simpa [handedOver, List.countP_eq_zero, EngineAct.Silent] using quiet
    unfold handedOver at *
    rw [List.countP_append, count, none, Nat.add_zero]

/-- An event is about to be handed over. -/
theorem Gathers.emit {act : EngineAct} {result : Outcome Unit} {w : World σ}
    (h : Gathers c old n events j) (emits : act.Emits = true) :
    Gathers c old (n + 1) events { j with toWorld := j.toWorld.recordStep act result w } := by
  obtain ⟨new, steps, count⟩ := h.count
  refine ⟨h.config, ⟨new ++ [⟨act, j.toWorld.bare, result, w⟩], ?_, ?_⟩, h.log⟩
  · show j.engine.steps ++ _ = _
    rw [steps, List.append_assoc]
  · unfold handedOver at *
    simp [List.countP_append, count, emits]

theorem traced_engine {P : EngineAct → Prop} : e.recorded.Follows P (traced e .any P) where
  load := follows_load
  reset := follows_reset
  write := follows_write
  read := follows_read
  delete := follows_delete
  execute := follows_execute
  started := follows_execution

/-- The engine, the configuration and the log stay as they are. -/
def untouched : Evolution (Job (Recorded σ) κ) := .same fun j => (j.engine, j.runner.config, j.log)

theorem unlogged_of_untouched (h : untouched j k) : unlogged e j k := by
  obtain ⟨engine, config, log⟩ : k.engine = j.engine ∧ k.runner.config = j.runner.config ∧ k.log = j.log := by
    simpa [untouched, Evolution.same] using h
  have world : traced e .any EngineAct.Silent j.toWorld k.toWorld := traced_of_host engine trivial
  exact ⟨⟨world, config⟩, log⟩

theorem unlogged_frame : Frame e.recorded EngineAct.Silent (traced e .any EngineAct.Silent)
    (unlogged (κ := κ) e) where
  engine := traced_engine
  prepares act h := by cases act <;> first | rfl | cases h
  host _ _ _ := traced_of_host rfl trivial
  storage _ _ h := ⟨⟨h, rfl⟩, rfl⟩
  aside j _ _ config := unlogged_of_untouched (by simp [untouched, Evolution.same, config])

theorem untouched_enter (id : String) (state : JobState) :
    (enter id state : Action (Job (Recorded σ) κ) Unit).Follows untouched := fun _ => rfl

theorem untouched_caller {α : Type} (x : Action (Caller κ) α) :
    (liftM x : Action (Job (Recorded σ) κ) α).Follows untouched := fun _ => rfl

theorem untouched_tellProgress (value : Binary64) :
    (tellProgress listener value : Action (Job (Recorded σ) κ) Unit).Follows untouched := by
  cases listener with
  | none => exact .pure _
  | some tell => exact untouched_caller _

theorem untouched_fail {α : Type} (id : String) (cause : Failure) :
    (fail id cause : Action (Job (Recorded σ) κ) α).Follows untouched :=
  .bind (untouched_enter _ _) fun _ => .bind (.read _) fun _ => .bind (.read _) fun _ =>
    .bind (fun _ => rfl) fun _ => .ite (.bind (fun _ => rfl) fun _ => .raise _) (.raise _)

theorem unlogged_ready :
    (ready e.recorded probe r s : Action (Job (Recorded σ) κ) Number).Follows (unlogged e) :=
  unlogged_frame.ready fun _ => (untouched_caller _).mono fun _ _ => unlogged_of_untouched

/-- Whatever comes of handling an event, a line that it tells is kept. -/
theorem Gathers.handle {id : String} {event : EngineEvent} {o : Outcome Deadline.Demand}
    (h : Gathers c old n events j) (ran : (Job.handle id listener event).run j = (o, k)) :
    Gathers c old n (events ++ [event]) k := by
  -- what tells no line leaves the log as it is
  have silent (none : event.line? = none)
      (quiet : (Job.handle id listener event : Action (Job (Recorded σ) κ) _).Follows untouched) :
      Gathers c old n (events ++ [event]) k := by
    obtain ⟨engine, config, log⟩ :
        k.engine = j.engine ∧ k.runner.config = j.runner.config ∧ k.log = j.log := by
      simpa [untouched, Evolution.same] using quiet.of_run ran
    refine ⟨config.trans h.config, engine ▸ h.count, ?_⟩
    simpa [log, List.filterMap_append, none] using h.log
  cases event with
  | log message =>
    cases ran
    refine ⟨h.config, h.count, ?_⟩
    show keepLine j.runner.config.logBuffer j.log message = _
    rw [h.config, h.log, ← keptLines_snoc]
    simp [EngineEvent.line?]
  | progress report =>
    exact silent rfl (.bind (.read _) fun _ => .bind (.ofNumeric _) fun _ =>
      .bind (.modify fun _ => rfl) fun _ => .bind (untouched_tellProgress _) fun _ => .pure _)
  | other v => exact silent rfl (.pure _)

/-- An execution that is started as a part of the job makes steps of the engine, and an event is one that
hands over. -/
theorem hands_started {arguments : List String} {i i' : Job (Recorded σ) κ}
    {x : Execution (Job (Recorded σ) κ) EngineEvent}
    (started : (start e.recorded arguments).run i = (.returned x, i')) :
    x.Hands (fun done => Gathers c old done.length done)
      (fun done => Gathers c old (done.length + 1) done) (unlogged e) := by
  obtain ⟨_, _, hy, hx⟩ := Action.bind_returned started
  cases hx
  obtain ⟨_, hy, -⟩ := world_eq hy
  obtain ⟨y, starts, rfl⟩ := execute_recorded_eq hy
  have lift {j : Job (Recorded σ) κ} {w : World (Recorded σ)}
      (h : traced e .any EngineAct.Silent j.toWorld w) : unlogged e j { j with toWorld := w } :=
    ⟨⟨h, rfl⟩, rfl⟩
  refine ⟨fun m hm done j hj => ?_, fun m hm j => ?_, .zoom (F := traced e .any EngineAct.Silent)
    (fun w => traced_recordStep w (.finish starts _) rfl) fun _ _ => lift⟩
  · obtain ⟨_, hn, rfl⟩ := List.mem_map.1 hm
    obtain ⟨n, -, rfl⟩ := List.mem_map.1 hn
    exact hj.emit rfl
  · obtain ⟨_, hn, rfl⟩ := List.mem_map.1 hm
    obtain ⟨n, mem, rfl⟩ := List.mem_map.1 hn
    exact lift (traced_recordStep _ (.close starts mem _) rfl)

/-- Executing a command hands over a first part of its events. -/
theorem Gathers.render {id : String} {arguments : List String} {o : Outcome Unit}
    (h : Gathers c old 0 [] j) (ran : (Job.render e.recorded id arguments listener).run j = (o, k)) :
    ∃ events, Gathers c old events.length events k ∧ (events = [] ∨ ∃ x w,
      (e.recorded.execute arguments).run j.toWorld = (.returned x, w) ∧ events <+: x.events) := by
  obtain ⟨_, _, hc, ran⟩ := Action.bind_total ran ⟨_, _, config_run j⟩
  cases hc
  have frame := unlogged_frame (e := e) (κ := κ)
  obtain ⟨p, t, ht, after, -⟩ := frame.distrusting_split ran
  rcases Deadline.relay_delivers (I := fun done => Gathers c old done.length done)
    (fun hk h => h.keep hk) (frame.start rfl) hands_started
    (fun {done a _ _ _} h ran => .inl (by simpa using h.handle ran)) (fun _ _ _ _ h => handle_more h)
    h ht with ⟨none, -⟩ | ⟨y, _, part, started, among, gathers, -⟩
  · exact ⟨[], none.keep after, .inl rfl⟩
  · obtain ⟨x, i, hx, hy⟩ := Action.bind_returned started
    cases hy
    obtain ⟨w, hw, -⟩ := world_eq hx
    rw [Execution.events_zoom] at among
    exact ⟨part, gathers.keep after, .inr ⟨x, w, hw, among⟩⟩

/-! ## Runs -/

/-- The events that a run from `j` to `k` was handed: every one is a step of the engine, and they are
the first ones of its command. -/
structure Delivered (e : Engine σ) (probe : DurationProbe κ) (r : JobRequest)
    (j k : Job (Recorded σ) κ) (events : List EngineEvent) : Prop where
  count : ∃ new, k.engine.steps = j.engine.steps ++ new ∧ handedOver new = events.length
  among : events = [] ∨ ∃ x, Commands e.recorded probe r j x ∧ events <+: x.events

theorem perform_gathers {i : Job (Recorded σ) κ} {o : Outcome ByteArray} (begins : Begins r s j i)
    (h : Gathers c old 0 [] i) (ran : (perform e.recorded probe r s listener).run i = (o, k)) :
    ∃ events, Gathers c old events.length events k ∧
      (events = [] ∨ ∃ x, Commands e.recorded probe r j x ∧ events <+: x.events) := by
  have entered (state : JobState) :
      (enter r.id state : Action (Job (Recorded σ) κ) Unit).Follows (unlogged e) :=
    (untouched_enter _ _).mono fun _ _ => unlogged_of_untouched
  rcases perform_split unlogged_frame rfl entered unlogged_ready ran with
    ⟨kept, -⟩ | ⟨d, a, b, arguments, m, q, v, ha, hb, hm, kept, hv, after, -⟩
  · exact ⟨[], h.keep kept, .inl rfl⟩
  · have executes : Executes e.recorded probe r s j arguments m := ⟨d, b, ⟨a, ⟨i, begins, ha⟩, hb⟩, hm⟩
    obtain ⟨events, gathers, among⟩ := (h.keep kept).render hv
    exact ⟨events, gathers.keep after,
      among.imp_right fun ⟨x, w, hx, among⟩ => ⟨x, ⟨s, arguments, m, w, executes, hx⟩, among⟩⟩

/-- The failure of a run whose log keeps a number of lines and of which a number are shown. However many
events the run was handed, the failure shows the last lines that they told: as many as are kept and to be
shown, unless none are to be shown; then it shows all that are kept. -/
theorem run_logTail {b t : Nat} {cause : Failure} {tail : List String}
    (kept : j.runner.config.logBuffer = some (b : Int)) (shown : j.runner.config.logTail = (t : Int))
    (ran : (run e.recorded probe r listener).run j = (.raised (.exportFailed cause tail), k))
    (failed : k.runner.state = .error) :
    ∃ events, Delivered e probe r j k events ∧ Tail b t (events.filterMap EngineEvent.line?) tail := by
  rcases refused_or_begins e.recorded probe r listener j with ⟨f, why, hf⟩ | ⟨s, i, hi⟩
  · cases hf.symm.trans ran
    exact absurd rfl why.plain
  have first : Gathers j.runner.config j.engine.steps 0 [] i := by
    obtain ⟨_, _, ⟨⟩, begun⟩ := Action.bind_total hi.begun ⟨_, _, rfl⟩
    cases begun
    exact ⟨rfl, ⟨[], (List.append_nil _).symm, rfl⟩, rfl⟩
  rcases conclude_cases hi ran nofun with ⟨f, v, hv, ran⟩ | ⟨content, v, hv, ran⟩
  · obtain ⟨events, gathers, among⟩ := perform_gathers hi first hv
    cases fail_tail ran
    obtain ⟨-, count, -⟩ := gathers.keep
      (unlogged_of_untouched (e := e) ((untouched_fail _ _).of_run ran))
    refine ⟨events, ⟨count, among⟩, ?_⟩
    rw [gathers.config, gathers.log, kept, shown]
    exact tail_keptLines b t _
  · cases (complete_cases ran).1.symm.trans failed

end Job

end VideoExport
