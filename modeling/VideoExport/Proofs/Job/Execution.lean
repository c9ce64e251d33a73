import VideoExport.Proofs.Engine.Serial
import VideoExport.Proofs.Job.Anatomy

/-!
# The command of a run

A run executes its command at most once (`run_executes`): the command is that for which it staged its
files, the engine starts it in the world that the staging left, and after it the run only hands over its
events, reads its output and deletes entries. So it is however the run ends, even if it never does.
-/

set_option autoImplicit false

namespace VideoExport

variable {σ κ : Type} {e : Engine σ}

/-- The steps of a command: it is started in the world `w`, if at all, and then executed. -/
inductive Commanded (arguments : List String) (w : World σ) : List (EngineStep σ) → Prop
  | unstarted {rest : List (EngineStep σ)} (acts : ∀ x ∈ rest, x.act.IsOf arguments) :
    Commanded arguments w rest
  | started {c : EngineStep σ} {rest : List (EngineStep σ)} (act : c.act = .execute arguments)
    (before : c.before = w) (acts : ∀ x ∈ rest, x.act.IsOf arguments) :
    Commanded arguments w (c :: rest)

theorem Commanded.append {arguments : List String} {w : World σ} {steps more : List (EngineStep σ)}
    (h : Commanded arguments w steps) (hmore : ∀ x ∈ more, x.act.IsOf arguments) :
    Commanded arguments w (steps ++ more) := by
  cases h with
  | unstarted acts => exact .unstarted (List.forall_mem_append.2 ⟨acts, hmore⟩)
  | started act before acts => exact .started act before (List.forall_mem_append.2 ⟨acts, hmore⟩)

theorem Commanded.startsFirst {arguments : List String} {w : World σ} {steps : List (EngineStep σ)}
    (h : Commanded arguments w steps) : StartsFirst steps := by
  cases h with
  | unstarted acts => exact fun x hx => (acts x (List.mem_of_mem_tail hx)).quiet
  | started _ _ acts => exact fun x hx => (acts x hx).quiet

namespace Job

variable {probe : DurationProbe κ} {r : JobRequest} {s : Settings} {d : Number}
  {listener : Option (ProgressListener κ)} {j k : Job (Recorded σ) κ}

/-- To distrust an engine changes nothing in the world. -/
theorem distrusting_world {α : Type} {x : Action (Job σ κ) α} {j k : Job σ κ} {o : Outcome α}
    (h : (distrusting x).run j = (o, k)) :
    ∃ p t, x.run j = (p, t) ∧ k.toWorld = t.toWorld := by
  rcases distrusting_cases h with ⟨a, rfl, hx⟩ | ⟨f, t, rfl, hx, same, -⟩ | ⟨rfl, hx⟩
  · exact ⟨_, _, hx, rfl⟩
  · exact ⟨_, _, hx, congrArg Storage.toWorld same⟩
  · exact ⟨_, _, hx, rfl⟩

/-- Handing over an execution makes the steps of a command. -/
theorem relay_commanded {S : HostFrame} {output : Path} (id : String) (arguments : List String)
    (limit : Option Number) (hb : Bystanders S probe listener output) (m : Job (Recorded σ) κ) :
    ∃ new, Span e S m.toWorld new
        ((Deadline.relay limit .render (start e.recorded arguments)
          (handle id listener)).run m).2.toWorld ∧ Commanded arguments m.toWorld.bare new := by
  refine Deadline.relay_related (E := tracing e S (·.IsOf arguments))
    (R := fun m u => ∃ new, Span e S m.toWorld new u.toWorld ∧
      Commanded arguments m.toWorld.bare new)
    limit .render (fun m => ⟨[], .refl _, .unstarted (List.forall_mem_nil _)⟩) ?_ (fun j => ?_)
    (fun j x k hx => ?_) (fun ev => tracing_calm (calm_handle hb id ev)) m
  · rintro j k l ⟨new, span, commanded⟩ ⟨⟨more, span', acts⟩, -⟩
    exact ⟨new ++ more, span.append span', commanded.append acts⟩
  · have started {p : Outcome (Execution (World (Recorded σ)) EngineEvent)}
        {k : Job (Recorded σ) κ} (h : (liftM (e.recorded.execute arguments) :
          Action (Job (Recorded σ) κ) _).run j = (p, k)) :
        ∃ new, Span e S j.toWorld new k.toWorld ∧ Commanded arguments j.toWorld.bare new := by
      obtain ⟨w, hw, rfl⟩ := world_eq h
      obtain ⟨c, act, before, span⟩ := execute_span (S := S) hw
      exact ⟨[c], span, .started act before (List.forall_mem_nil _)⟩
    rcases h : (start e.recorded arguments).run j with ⟨o, k⟩
    rcases Action.bind_eq h with ⟨y, v, hy, h⟩ | ⟨f, hy, -⟩ | ⟨hy, -⟩
    · cases h
      exact started hy
    · exact started hy
    · exact started hy
  · have follows := follows_started (T := .any) (N := []) (S := S) hx fun _ h => h
    have lift {j k : Job (Recorded σ) κ} (h : Working e S (·.IsOf arguments) [] .any j k) :
        tracing e S (·.IsOf arguments) j k := ⟨h.storage.1, h.config⟩
    exact ⟨fun m hm s => lift (follows.before m hm s), fun m hm s => lift (follows.close m hm s),
      tracing_working follows.finish⟩

theorem render_commanded {id : String} {arguments : List String} {q : Outcome Unit}
    (h : (render e.recorded id arguments listener).run j = (q, k)) :
    ∃ new, Span e .any j.toWorld new k.toWorld ∧ Commanded arguments j.toWorld.bare new := by
  obtain ⟨_, _, hc, h⟩ := Action.bind_total h ⟨_, _, config_run j⟩
  cases hc
  obtain ⟨p, t, ran, world⟩ := distrusting_world h
  obtain ⟨new, span, commanded⟩ := relay_commanded id arguments (some j.runner.config.renderLimit)
    (.any (fun _ => pure none) listener (.ofString "")) j
  rw [ran] at span
  rw [world]
  exact ⟨new, span, commanded⟩

/-! ## What comes before and after the command -/

/-- An act before the command of a run: none that executes a command or reads an entry. -/
def Leads (act : EngineAct) : Prop := (∀ a, act ≠ .execute a) ∧ ∀ n, act ≠ .read n

/-- An act after the command, or after its execution: the output is read, or an entry is deleted. -/
def Trails (output : String) (act : EngineAct) : Prop := act = .read output ∨ ∃ n, act = .delete n

theorem Leads.quiet {act : EngineAct} (h : Leads act) : ¬ act.Executes := fun ⟨a, ha⟩ => h.1 a ha

theorem Trails.quiet {output : String} {act : EngineAct} (h : Trails output act) :
    ¬ act.Executes := by
  rintro ⟨_, rfl⟩
  rcases h with h | ⟨_, h⟩ <;> cases h

theorem leads_of_delete (n : String) : Leads (.delete n) := ⟨nofun, nofun⟩

theorem leads_of_write (n : String) (content : ByteArray) : Leads (.write n content) :=
  ⟨nofun, nofun⟩

theorem stageFiles_leads :
    (stageFiles e.recorded r s (imageOf r s) (namesOf r s) d :
      Action (Job (Recorded σ) κ) (List String)).Follows (tracing e .any Leads) :=
  tracing_working (N := (namesOf r s).all) (T := .any)
    (working_stageFiles r s _ d (fun _ h => h) fun n _ content => leads_of_write n content)

/-- Reading the output is one step, whatever is found. -/
theorem readOutput_step {S : HostFrame} {name : String} {o : Outcome ByteArray}
    (h : (readOutput e.recorded name).run j = (o, k)) :
    ∃ c : EngineStep σ, c.act = .read name ∧ Span e S j.toWorld [c] k.toWorld := by
  have read {p : Outcome ByteArray} {i : Job (Recorded σ) κ}
      (h : (liftM (e.recorded.read name) : Action (Job (Recorded σ) κ) ByteArray).run j = (p, i)) :
      ∃ c : EngineStep σ, c.act = .read name ∧ Span e S j.toWorld [c] i.toWorld := by
    obtain ⟨w, hw, rfl⟩ := world_eq h
    obtain ⟨c, act, -, span⟩ := Span.recorded (S := S) hw (.read name _)
    exact ⟨c, act, span⟩
  rcases Action.bind_eq h with ⟨content, i, hi, h⟩ | ⟨f, hi, -⟩ | ⟨hi, -⟩
  · have checked : k = i := by
      refine Action.Follows.of_run (E := .still) (.bind (.read _) fun _ => ?_) h
      dsimp only
      split
      · exact .bind (.raise _) fun _ => .pure _
      · exact .pure _
    exact checked ▸ read hi
  · exact read hi
  · exact read hi

theorem collect_step {o : Outcome ByteArray}
    (h : (collect e.recorded r (namesOf r s)).run j = (o, k)) :
    ∃ c : EngineStep σ, c.act = .read (namesOf r s).output ∧ Span e .any j.toWorld [c] k.toWorld := by
  rcases Action.bind_eq h with ⟨content, i, hi, h⟩ | ⟨f, hi, -⟩ | ⟨hi, -⟩
  · obtain ⟨c, act, span⟩ := readOutput_step (S := .any) hi
    have written : Calm .any i k := Action.Follows.of_run
      (.bind (calm_writeOutput (.any (fun _ => pure none) none r.output) _) fun _ => .pure _) h
    exact ⟨c, act, span.append written.span⟩
  · exact readOutput_step hi
  · exact readOutput_step hi

/-- From the world `w` on a run executes its command, after which it reads its output, at the latest before
it returns, and deletes entries. -/
def Executing (e : Engine σ) (output : String) (arguments : List String) (returned : Prop)
    (w w' : World (Recorded σ)) : Prop :=
  ∃ command trail, Span e .any w (command ++ trail) w' ∧ Commanded arguments w.bare command ∧
    (∀ x ∈ trail, Trails output x.act) ∧ (returned → ∃ x ∈ trail, x.act = .read output)

section
variable {output : String} {arguments : List String} {returned returned' : Prop}
  {w w' w'' : World (Recorded σ)}

/-- A command that fails is all that is executed. -/
theorem Executing.failed {command : List (EngineStep σ)} (span : Span e .any w command w')
    (commanded : Commanded arguments w.bare command) (fails : ¬ returned) :
    Executing e output arguments returned w w' :=
  ⟨command, [], by rwa [List.append_nil], commanded, List.forall_mem_nil _, fun h => absurd h fails⟩

/-- Deletions may follow, or nothing at all. -/
theorem Executing.append (h : Executing e output arguments returned w w')
    (after : traced e .any (fun act => ∃ n, act = .delete n) w' w'') (back : returned' → returned) :
    Executing e output arguments returned' w w'' := by
  obtain ⟨command, trail, span, commanded, trails, read⟩ := h
  obtain ⟨last, slast, deletions⟩ := after
  refine ⟨command, trail ++ last, ?_, commanded,
    List.forall_mem_append.2 ⟨trails, fun x hx => .inr (deletions x hx)⟩, fun h => ?_⟩
  · rw [← List.append_assoc]
    exact span.append slast
  · obtain ⟨x, hx, act⟩ := read (back h)
    exact ⟨x, List.mem_append_left _ hx, act⟩

/-- One command is started at most. -/
theorem Executing.starts_le (h : Executing e output arguments returned w w') :
    ∃ new, Span e .any w new w' ∧ starts new ≤ 1 := by
  obtain ⟨command, trail, span, commanded, trails, -⟩ := h
  have none : starts trail = 0 := starts_eq_zero.2 fun x hx => (trails x hx).quiet
  refine ⟨_, span, ?_⟩
  rw [starts_append, none]
  exact commanded.startsFirst.starts_le

end

/-- Once its names are claimed, a run comes to no command, or it executes the one that it compiled. -/
theorem transcode_commanded {c : Job (Recorded σ) κ} {o : Outcome ByteArray}
    (h : (transcode e.recorded r s (imageOf r s) (namesOf r s) d listener).run c = (o, k)) :
    traced e .any Leads c.toWorld k.toWorld ∨
      ∃ arguments m,
        (stageFiles e.recorded r s (imageOf r s) (namesOf r s) d >>= fun arguments => do
          enter r.id .rendering
          return arguments).run c = (.returned arguments, m) ∧
        Executing e (namesOf r s).output arguments (∃ a, o = .returned a) m.toWorld k.toWorld := by
  rcases Action.bind_eq h with ⟨arguments, i, hi, h⟩ | ⟨f, hi, rfl⟩ | ⟨hi, rfl⟩
  · obtain ⟨_, m, hm, h⟩ := Action.bind_total h ⟨_, _, rfl⟩
    have staged : (stageFiles e.recorded r s (imageOf r s) (namesOf r s) d >>= fun arguments => do
        enter r.id .rendering
        return arguments).run c = (.returned arguments, m) := by
      rw [Action.run_bind_of_returned hi, Action.run_bind_of_returned hm]
      rfl
    refine .inr ⟨arguments, m, staged, ?_⟩
    rcases Action.bind_eq h with ⟨_, v, hv, h⟩ | ⟨f, hv, rfl⟩ | ⟨hv, rfl⟩
    · obtain ⟨command, span, commanded⟩ := render_commanded hv
      obtain ⟨_, w, hw, h⟩ := Action.bind_total h ⟨_, _, rfl⟩
      have entered : Calm .any v w := (calm_enter _ _).of_run hw
      obtain ⟨c, act, read⟩ := collect_step h
      refine ⟨command, [c], ?_, commanded, List.forall_mem_singleton.2 (.inl act),
        fun _ => ⟨c, .head _, act⟩⟩
      have whole := (span.append entered.span).append read
      rwa [List.append_nil] at whole
    · obtain ⟨command, span, commanded⟩ := render_commanded hv
      exact .failed span commanded nofun
    · obtain ⟨command, span, commanded⟩ := render_commanded hv
      exact .failed span commanded nofun
  · exact .inl (stageFiles_leads.of_run hi).1
  · exact .inl (stageFiles_leads.of_run hi).1

/-- So it is for the whole part of a run in working storage, which ends with deletions. -/
theorem inStorage_commanded {o : Outcome ByteArray}
    (h : (inStorage e.recorded r s d listener).run j = (o, k)) :
    traced e .any Leads j.toWorld k.toWorld ∨
      ∃ arguments m, (lead e.recorded r s d).run j = (.returned arguments, m) ∧
        Executing e (namesOf r s).output arguments (∃ a, o = .returned a) m.toWorld k.toWorld := by
  obtain ⟨_, i, hi, h⟩ := Action.bind_total h ⟨_, _, rfl⟩
  obtain ⟨_, b, hb, h⟩ := Action.bind_total h ⟨_, _, rfl⟩
  have opened : (opening r).run j = (.returned (), b) := (Action.run_bind_of_returned hi).trans hb
  obtain ⟨-, -, -, before⟩ := opening_eq (S := .any) (e := e) opened
  obtain ⟨p, t, ht, ⟨deleted, -⟩, returned⟩ := Action.ensuring_split
    (tracing_release (P := fun act => ∃ n, act = .delete n) (S := .any) fun n => ⟨n, rfl⟩) h
  have released : traced e .any Leads t.toWorld k.toWorld := by
    obtain ⟨last, after, deletions⟩ := deleted
    refine ⟨last, after, fun x hx => ?_⟩
    obtain ⟨n, hn⟩ := deletions x hx
    exact hn ▸ leads_of_delete n
  have claimed {q : Outcome Unit} {c : Job (Recorded σ) κ}
      (hc : (claimNames e.recorded (namesOf r s)).run b = (q, c)) :
      traced e .any Leads j.toWorld c.toWorld :=
    (traced e .any Leads).trans ⟨[], before, List.forall_mem_nil _⟩
      ((tracing_claimNames leads_of_delete _).of_run hc).1
  rcases Action.bind_eq ht with ⟨_, c, hc, ht⟩ | ⟨f, hc, rfl⟩ | ⟨hc, rfl⟩
  · rcases transcode_commanded ht with quiet | ⟨arguments, m, staged, executing⟩
    · exact .inl ((traced e .any Leads).trans ((traced e .any Leads).trans (claimed hc) quiet) released)
    · refine .inr ⟨arguments, m, ?_, executing.append deleted fun ⟨a, ho⟩ => ⟨a, returned a ho⟩⟩
      unfold lead
      rw [Action.run_bind_of_returned opened, Action.run_bind_of_returned hc]
      exact staged
  · exact .inl ((traced e .any Leads).trans (claimed hc) released)
  · exact .inl ((traced e .any Leads).trans (claimed hc) released)

theorem lead_leads : (lead e.recorded r s d : Action (Job (Recorded σ) κ) (List String)).Follows
    (tracing e .any Leads) :=
  .bind (.bind (tracing_enter _ _) fun _ =>
      .modify fun j => ⟨(traced e .any Leads).refl j.toWorld, rfl⟩) fun _ =>
    .bind (tracing_claimNames leads_of_delete _) fun _ => .bind stageFiles_leads fun _ =>
      .bind (tracing_enter _ _) fun _ => .pure _

/-- From `j` to `k` a run that is ready comes to no command, or to one, which it executes. -/
inductive Commanding (e : Engine σ) (r : JobRequest) (s : Settings) (d : Number) (returned : Prop)
    (j k : Job (Recorded σ) κ) : Prop
  | none (leads : traced e .any Leads j.toWorld k.toWorld)
  | one {arguments : List String} {b m : Job (Recorded σ) κ}
      (titled : (prepareFont e.recorded r s).run j = (.returned (), b))
      (led : (lead e.recorded r s d).run b = (.returned arguments, m))
      (leads : traced e .any Leads j.toWorld m.toWorld)
      (executing : Executing e (namesOf r s).output arguments returned m.toWorld k.toWorld)

/-- Nothing may follow that is a step of the engine. -/
theorem Commanding.calm {returned returned' : Prop} {t : Job (Recorded σ) κ}
    (h : Commanding e r s d returned j t) (calm : Calm .any t k) (back : returned' → returned) :
    Commanding e r s d returned' j k := by
  cases h with
  | none leads => exact .none ((traced e .any Leads).trans leads (traced_of_host calm.engine calm.host))
  | one titled led leads executing =>
    exact .one titled led leads (executing.append (traced_of_host calm.engine calm.host) back)

/-- All of a run that may fail, once the run is ready. -/
theorem work_commanded {o : Outcome ByteArray}
    (h : (prepareFont e.recorded r s >>= fun _ => inStorage e.recorded r s d listener).run j = (o, k)) :
    Commanding e r s d (∃ a, o = .returned a) j k := by
  have prepared {q : Outcome Unit} {b : Job (Recorded σ) κ}
      (hb : (prepareFont e.recorded r s).run j = (q, b)) : traced e .any Leads j.toWorld b.toWorld :=
    ((tracing_prepareFont fun _ => leads_of_write _ _).of_run hb).1
  rcases Action.bind_eq h with ⟨_, b, hb, h⟩ | ⟨f, hb, rfl⟩ | ⟨hb, rfl⟩
  · rcases inStorage_commanded h with quiet | ⟨arguments, m, led, executing⟩
    · exact .none ((traced e .any Leads).trans (prepared hb) quiet)
    · exact .one hb led ((traced e .any Leads).trans (prepared hb) (lead_leads.of_run led).1) executing
  · exact .none (prepared hb)
  · exact .none (prepared hb)

/-- So it is for all that follows once the run is ready. -/
theorem rest_commanded {o : Outcome JobResult}
    (h : (rest e.recorded r s d listener).run j = (o, k)) :
    Commanding e r s d (∃ a, o = .returned a) j k := by
  rcases Action.attempt_bind_eq h with ⟨content, t, ht, h⟩ | ⟨f, t, ht, h⟩ | ⟨ht, rfl⟩
  · exact (work_commanded ht).calm
      ((calm_complete (.any (fun _ => pure none) listener r.output) r content).of_run h)
      fun _ => ⟨content, rfl⟩
  · refine (work_commanded ht).calm ((calm_fail _ _).of_run h) fun ⟨x, hx⟩ => ?_
    obtain ⟨tail, ho⟩ := fail_eq h
    cases hx.symm.trans ho
  · exact (work_commanded ht).calm ((calm .any).refl k) nofun

/-- However a run ends: it comes to no command, or to one, which it executes. -/
theorem run_commanded {o : Outcome JobResult}
    (ran : (run e.recorded probe r listener).run j = (o, k)) :
    traced e .any Leads j.toWorld k.toWorld ∨
      ∃ s arguments m, Executes e.recorded probe r s j arguments m ∧
        traced e .any Leads j.toWorld m.toWorld ∧
        Executing e (namesOf r s).output arguments (∃ a, o = .returned a) m.toWorld k.toWorld := by
  rcases run_split (S := .any) ran with rfl | ⟨s, i, p, a, hi, hp, h⟩
  · exact .inl ((traced e .any Leads).refl _)
  have begun : Calm .any j i := (calm_begin r).of_run hi.begun
  have readied : traced e .any Leads j.toWorld a.toWorld :=
    (traced e .any Leads).trans (traced_of_host begun.engine begun.host)
      ((tracing_ready (P := Leads) (.any probe none (.ofString "")) ⟨nofun, nofun⟩
        ⟨nofun, nofun⟩).of_run hp).1
  rcases h with ⟨d, rfl, h⟩ | ⟨-, calm⟩
  · cases rest_commanded h with
    | none quiet => exact .inl ((traced e .any Leads).trans readied quiet)
    | @one arguments b m titled led leads executing =>
      exact .inr ⟨s, arguments, m, ⟨d, b, ⟨a, ⟨i, hi, hp⟩, titled⟩, led⟩,
        (traced e .any Leads).trans readied leads, executing⟩
  · exact .inl ((traced e .any Leads).trans readied (traced_of_host calm.engine calm.host))

/-- A list has one place for the only member of a kind. -/
theorem split_unique {α : Type} {P : α → Prop} {c c' : α} (hc : P c) {rest after : List α}
    (hrest : ∀ x ∈ rest, ¬ P x) : ∀ {pre before : List α}, (∀ x ∈ pre, ¬ P x) →
      pre ++ c' :: rest = before ++ c :: after → before = pre ∧ c = c' ∧ after = rest
  | [], [], _, h => by
    cases h
    exact ⟨rfl, rfl, rfl⟩
  | [], b :: before, _, h => by
    have tail := (List.cons.inj h).2
    exact absurd hc (hrest c (tail ▸ List.mem_append_right _ (.head _)))
  | p :: pre, [], hpre, h => by
    have head := (List.cons.inj h).1
    exact absurd hc (head ▸ hpre p (.head _))
  | p :: pre, b :: before, hpre, h => by
    obtain ⟨head, tail⟩ := List.cons.inj h
    obtain ⟨same, member, rest⟩ := split_unique hc hrest (fun x hx => hpre x (.tail _ hx)) tail
    exact ⟨by rw [head, same], member, rest⟩

/-- However a run ends: if one of its steps executes a command, then this is the command that the run
compiled, it is started in the world in which the run then stands, and it is the only one. Before it no
entry is read, and after its execution the run reads its output, at the latest before it returns, and deletes
entries. -/
theorem run_executes {o : Outcome JobResult} {before after : List (EngineStep σ)} {c : EngineStep σ}
    {arguments : List String} (ran : (run e.recorded probe r listener).run j = (o, k))
    (steps : k.engine.steps = j.engine.steps ++ (before ++ c :: after))
    (executed : c.act = .execute arguments) :
    ∃ s m, Executes e.recorded probe r s j arguments m ∧ Span e .any j.toWorld before m.toWorld ∧
      c.before = m.toWorld.bare ∧ (∀ x ∈ before, Leads x.act) ∧
      (∀ x ∈ after, x.act.IsOf arguments ∨ Trails (namesOf r s).output x.act) ∧
      ∀ result, o = .returned result → ∃ x ∈ after, x.act = .read (namesOf r s).output := by
  rcases run_commanded ran with ⟨new, span, quiet⟩ |
    ⟨s, compiled, m, executes, ⟨lead, slead, leads⟩, command, trail, span, commanded, trails, read⟩
  · have mem : c ∈ new := span.unique steps ▸ List.mem_append_right _ (.head _)
    exact absurd ⟨arguments, executed⟩ (quiet c mem).quiet
  have whole : lead ++ (command ++ trail) = before ++ c :: after := (slead.append span).unique steps
  cases commanded with
  | unstarted acts =>
    have mem : c ∈ lead ++ (command ++ trail) := whole ▸ List.mem_append_right _ (.head _)
    rcases List.mem_append.1 mem with mem | mem
    · exact absurd ⟨arguments, executed⟩ (leads c mem).quiet
    rcases List.mem_append.1 mem with mem | mem
    · exact absurd ⟨arguments, executed⟩ (acts c mem).quiet
    · exact absurd ⟨arguments, executed⟩ (trails c mem).quiet
  | @started c' rest act begun acts =>
    obtain ⟨rfl, rfl, rfl⟩ := split_unique (P := fun x : EngineStep σ => x.act.Executes)
      ⟨arguments, executed⟩
      (List.forall_mem_append.2 ⟨fun x hx => (acts x hx).quiet, fun x hx => (trails x hx).quiet⟩)
      (fun x hx => (leads x hx).quiet) whole
    obtain rfl : arguments = compiled := EngineAct.execute.inj (executed.symm.trans act)
    refine ⟨s, m, executes, slead, begun, leads, fun x hx => ?_, fun a ho => ?_⟩
    · exact (List.mem_append.1 hx).imp (acts x) (trails x)
    · obtain ⟨x, hx, hread⟩ := read ⟨a, ho⟩
      exact ⟨x, List.mem_append_right _ hx, hread⟩

end Job

end VideoExport
