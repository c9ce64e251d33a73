import VideoExport.Proofs.Job.Cleanup
import VideoExport.Proofs.Job.Ends
import VideoExport.Proofs.Job.Overlap

/-!
# How a run reports its end

A run should end in one of two ways (`Reported`): it returns a result and is done, or it raises the
failure of the export, with its cause, and has failed. `run_reported`: a run whose engine, probe and
listener respond comes to an end, which is of these two unless the run is refused before it begins or
its listener fails when it is told, after all work is done, that the job is done.
-/

set_option autoImplicit false

namespace VideoExport.Job

variable {σ κ : Type} {e : Engine σ} {probe : DurationProbe κ} {r : JobRequest} {s : Settings}
  {listener : Option (ProgressListener κ)} {j k : Job σ κ}

/-! ## The two ends -/

/-- A run ends as it should. -/
def Reported (o : Outcome JobResult) (k : Job σ κ) : Prop :=
  (∃ result, o = .returned result ∧ k.runner.state = .done) ∨
    ∃ cause tail, o = .raised (.exportFailed cause tail) ∧ k.runner.state = .error

theorem follows_note (level : Level) (message : String) :
    (note level message : Action (Job σ κ) Unit).Follows (.same fun j => j.runner) :=
  .zoom (Action.Follows.any _) fun _ _ _ => rfl

theorem enter_state {id : String} {state : JobState} {o : Outcome Unit}
    (h : (enter id state).run j = (o, k)) : o = .returned () ∧ k.runner.state = state := by
  cases h
  exact ⟨rfl, rfl⟩

/-- Whatever is reported as a failure is raised as that of the export, in the state of a failed job. -/
theorem fail_reports {α : Type} {id : String} {cause : Failure} {o : Outcome α}
    (h : (fail id cause).run j = (o, k)) :
    (∃ tail, o = .raised (.exportFailed cause tail)) ∧ k.runner.state = .error := by
  refine ⟨fail_eq h, ?_⟩
  obtain ⟨_, i, hi, h⟩ := Action.bind_total h ⟨_, _, rfl⟩
  have noted : (do
      let count := (← config).logTail
      let tail ← Action.read fun j : Job σ κ => tailLines count j.log
      note .error s!"Exportação {id} falhou: {cause.message}"
      if !tail.isEmpty then
        note .error (s!"Logs do FFmpeg (fim) [{id}]:\n" ++ "\n".intercalate tail)
      .raise (.exportFailed cause tail) : Action (Job σ κ) α).Follows (.same fun j => j.runner) :=
    .bind (.read _) fun _ => .bind (.read _) fun _ => .bind (follows_note _ _) fun _ =>
      .ite (.bind (follows_note _ _) fun _ => .raise _) (.raise _)
  rw [show k.runner = i.runner from noted.of_run h]
  exact (enter_state hi).2

/-- What a run whose work is done does before it gives its result. -/
def announceDone (r : JobRequest) (listener : Option (ProgressListener κ)) :
    Action (Job σ κ) Unit := do
  enter r.id .done
  tellProgress listener .one

theorem follows_tellProgress (value : Binary64) :
    (tellProgress listener value : Action (Job σ κ) Unit).Follows (.same fun j => j.runner) := by
  cases listener with
  | none => exact .pure _
  | some tell => exact .zoom (Action.Follows.any _) fun _ _ _ => rfl

/-- A run whose work is done ends as telling its listener does, in the state of a job that is done. -/
theorem complete_cases {content : ByteArray} {o : Outcome JobResult}
    (h : (complete r content listener).run j = (o, k)) :
    k.runner.state = .done ∧
      ((∃ u history, (announceDone r listener).run j = (.returned (), u) ∧
          o = .returned ⟨r.id, r.output, content.size, history⟩) ∨
        (∃ f, (announceDone r listener).run j = (.raised f, k) ∧ o = .raised f) ∨
        (announceDone r listener).run j = (.stalled, k) ∧ o = .stalled) := by
  obtain ⟨_, i, hi, h⟩ := Action.bind_total h ⟨_, _, rfl⟩
  have announced : (announceDone r listener).run j = (tellProgress listener .one).run i :=
    Action.run_bind_of_returned hi
  have told {p : Outcome Unit} {u : Job σ κ} (hu : (tellProgress listener .one).run i = (p, u)) :
      u.runner.state = .done := by
    rw [show u.runner = i.runner from (follows_tellProgress _).of_run hu]
    exact (enter_state hi).2
  rcases Action.bind_eq h with ⟨_, u, hu, h⟩ | ⟨f, hu, rfl⟩ | ⟨hu, rfl⟩
  · obtain ⟨_, v, hv, h⟩ := Action.bind_total h ⟨_, _, rfl⟩
    have noted : v.runner = u.runner := (follows_note _ _).of_run hv
    obtain ⟨_, _, hw, h⟩ := Action.bind_total h ⟨_, _, rfl⟩
    cases hw
    cases h
    refine ⟨?_, .inl ⟨u, _, announced.trans hu, rfl⟩⟩
    rw [noted]
    exact told hu
  · exact ⟨told hu, .inr (.inl ⟨f, announced.trans hu, rfl⟩)⟩
  · exact ⟨told hu, .inr (.inr ⟨announced.trans hu, rfl⟩)⟩

/-! ## All ends -/

/-- Why a run is refused before it begins: a number of its settings cannot be written, or no list can
have the length that the log is to keep. -/
inductive Refused (r : JobRequest) (c : Config) : Failure → Prop
  | settings {f : NumericError}
      (why : Settings.sanitize r.settings r.attachments.image.isSome = .error f) :
      Refused r c (.numeric f)
  | length {s : Settings} {n : Int} {f : Failure}
      (settings : Settings.sanitize r.settings r.attachments.image.isSome = .ok s)
      (limit : c.logBuffer = some n) (why : checkLength n = .error f) : Refused r c f

/-- A length is refused unless a list can have it. -/
theorem checkLength_ok_iff {n : Int} : checkLength n = .ok () ↔ 0 ≤ n ∧ n ≤ lengthLimit := by
  unfold checkLength
  split
  · rename_i beyond
    simp only [Bool.or_eq_true, decide_eq_true_eq] at beyond
    refine ⟨nofun, fun bounds => ?_⟩
    unfold lengthLimit at beyond bounds
    omega
  · rename_i within
    simp only [Bool.or_eq_true, decide_eq_true_eq, not_or, Int.not_lt] at within
    split
    · rename_i negative
      exact ⟨nofun, fun bounds => absurd negative (Int.not_lt.2 bounds.1)⟩
    · rename_i nonnegative
      exact ⟨fun _ => ⟨Int.not_lt.1 nonnegative, within.1⟩, fun _ => rfl⟩

variable (e probe r listener) in
/-- A run that does not begin is refused, and changes nothing. -/
theorem refused_or_begins (j : Job σ κ) :
    (∃ f, Refused r j.runner.config f ∧ (run e probe r listener).run j = (.raised f, j)) ∨
      ∃ s i, Begins r s j i := by
  cases hs : Settings.sanitize r.settings r.attachments.image.isSome with
  | error f =>
    refine .inl ⟨.numeric f, .settings hs, ?_⟩
    unfold run
    rw [hs]
    rfl
  | ok s =>
    cases hl : j.runner.config.logBuffer with
    | none => exact .inr ⟨s, _, hs, by rw [hl]; rfl, rfl⟩
    | some n =>
      cases hc : checkLength n with
      | error f =>
        refine .inl ⟨f, .length hs hl hc, ?_⟩
        unfold run
        rw [hs, Action.run_bind_of_returned (Action.run_ofNumeric_ok j s),
          Action.run_bind_of_returned (config_run j), hl, Option.mapM_some, hc]
        rfl
      | ok _ =>
        refine .inr ⟨s, _, hs, ?_, rfl⟩
        rw [hl, Option.mapM_some, hc]
        rfl

theorem Refused.not_begins {f : Failure} {i : Job σ κ} (h : Refused r j.runner.config f)
    (hi : Begins r s j i) : False := by
  cases h with
  | settings why => exact nomatch why.symm.trans hi.settings
  | length _ limit why =>
    have := hi.limit
    rw [limit, Option.mapM_some, why] at this
    cases this

/-- What refuses a run is not reported as the failure of an export. -/
theorem Refused.plain {c : Config} {f cause : Failure} {tail : List String} (h : Refused r c f) :
    f ≠ .exportFailed cause tail := by
  rintro rfl
  cases h with
  | length _ _ why =>
    unfold checkLength at why
    split at why
    · cases why
    · split at why <;> cases why

/-- The ends of a run: it is refused; or its work fails, and that is reported; or its work is done, and
the run ends as telling of it does. -/
inductive Ending (e : Engine σ) (probe : DurationProbe κ) (r : JobRequest)
    (listener : Option (ProgressListener κ)) (j : Job σ κ) : Outcome JobResult → Job σ κ → Prop
  | refused {f : Failure} (why : Refused r j.runner.config f) : Ending e probe r listener j (.raised f) j
  | failed {s : Settings} {i t k : Job σ κ} {cause : Failure} {tail : List String}
      (begins : Begins r s j i)
      (work : (perform e probe r s listener).run i = (.raised cause, t))
      (state : k.runner.state = .error) :
      Ending e probe r listener j (.raised (.exportFailed cause tail)) k
  | finished {s : Settings} {i t u k : Job σ κ} {content : ByteArray} {result : JobResult}
      (begins : Begins r s j i)
      (work : (perform e probe r s listener).run i = (.returned content, t))
      (told : (announceDone r listener).run t = (.returned (), u))
      (state : k.runner.state = .done) : Ending e probe r listener j (.returned result) k
  | untold {s : Settings} {i t k : Job σ κ} {content : ByteArray} {f : Failure}
      (begins : Begins r s j i)
      (work : (perform e probe r s listener).run i = (.returned content, t))
      (told : (announceDone r listener).run t = (.raised f, k))
      (state : k.runner.state = .done) : Ending e probe r listener j (.raised f) k

/-- Every run that ends has one of these ends. -/
theorem ending_of_run {o : Outcome JobResult} (ran : (run e probe r listener).run j = (o, k))
    (ends : o ≠ .stalled) : Ending e probe r listener j o k := by
  rcases refused_or_begins e probe r listener j with ⟨f, why, hf⟩ | ⟨s, i, hi⟩
  · obtain ⟨rfl, rfl⟩ := Prod.mk.inj (hf.symm.trans ran)
    exact .refused why
  · rcases conclude_cases hi ran ends with ⟨f, t, ht, h⟩ | ⟨content, t, ht, h⟩
    · obtain ⟨⟨tail, rfl⟩, state⟩ := fail_reports h
      exact .failed hi ht state
    · obtain ⟨state, ⟨u, _, told, rfl⟩ | ⟨f, told, rfl⟩ | ⟨-, rfl⟩⟩ := complete_cases h
      · exact .finished hi ht told state
      · exact .untold hi ht told state
      · exact absurd rfl ends

/-- The listener can be told that the job is done, should its work be. -/
def Tellable (e : Engine σ) (probe : DurationProbe κ) (r : JobRequest)
    (listener : Option (ProgressListener κ)) (s : Settings) (i : Job σ κ) : Prop :=
  ∀ content t f k, (perform e probe r s listener).run i = (.returned content, t) →
    (announceDone r listener).run t ≠ (.raised f, k)

theorem Begins.unique {s s' : Settings} {i i' : Job σ κ} (h : Begins r s j i)
    (h' : Begins r s' j i') : s' = s ∧ i' = i := by
  obtain ⟨hs, -, hi⟩ := h
  obtain ⟨hs', -, hi'⟩ := h'
  cases hs.symm.trans hs'
  cases hi.symm.trans hi'
  exact ⟨rfl, rfl⟩

/-- An end is as it should be if the run begins and its listener can be told of the end. -/
theorem Ending.reported_iff {o : Outcome JobResult} (h : Ending e probe r listener j o k) :
    Reported o k ↔ ∃ s i, Begins r s j i ∧ Tellable e probe r listener s i := by
  have same {s s' : Settings} {i i' : Job σ κ} (hi : Begins r s j i) (hi' : Begins r s' j i') :
      s' = s ∧ i' = i := hi.unique hi'
  cases h with
  | refused why =>
    refine ⟨?_, fun ⟨_, _, hi, _⟩ => (why.not_begins hi).elim⟩
    rintro (⟨_, ho, -⟩ | ⟨_, _, ho, -⟩)
    · cases ho
    · cases ho
      exact absurd rfl why.plain
  | failed hi work state =>
    refine ⟨fun _ => ⟨_, _, hi, fun content t f k done => ?_⟩, fun _ => .inr ⟨_, _, rfl, state⟩⟩
    cases work.symm.trans done
  | finished hi work told state =>
    refine ⟨fun _ => ⟨_, _, hi, fun content t f k done => ?_⟩, fun _ => .inl ⟨_, rfl, state⟩⟩
    cases work.symm.trans done
    rw [told]
    exact nofun
  | untold hi work told state =>
    refine ⟨?_, fun ⟨_, _, hi', tellable⟩ => ?_⟩
    · rintro (⟨_, ho, -⟩ | ⟨_, _, -, error⟩)
      · cases ho
      · cases state.symm.trans error
    · obtain ⟨rfl, rfl⟩ := same hi hi'
      exact absurd told (tellable _ _ _ _ work)

/-! ## Runs that end -/

/-- Telling of progress ends if the listener responds. -/
theorem ends_tellProgress {P : Job σ κ → Prop} (hP : ∀ (i : Job σ κ) host client, P i →
    P { i with host, client }) (hl : ∀ tell, listener = some tell → ∀ value, (tell value).Responds)
    (value : Binary64) : (tellProgress listener value : Action (Job σ κ) Unit).Ends P := by
  cases listener with
  | none => exact .pure _
  | some tell => exact .zoom (hl tell rfl value) fun i c h => hP i _ _ h

/-- A run ends if all who take part in it respond. -/
theorem ends_run (he : e.Responsive j.runner.config) (hp : ∀ path, (probe path).Responds)
    (hl : ∀ tell, listener = some tell → ∀ value, (tell value).Responds) :
    ((run e probe r listener).run j).1 ≠ .stalled := by
  have hP : Steady (σ := σ) (κ := κ) j.runner.config _ := steady_config _
  have told (value : Binary64) : (tellProgress listener value : Action (Job σ κ) Unit).Ends
      fun i => i.runner.config = j.runner.config := ends_tellProgress (fun _ _ _ h => h) hl value
  have probed (path : Path) : (liftM (probe path) : Action (Job σ κ) (Option Number)).Ends
      fun i => i.runner.config = j.runner.config := .zoom (hp path) fun _ _ h => h
  have handled : ∀ ev, (handle r.id listener ev : Action (Job σ κ) Deadline.Demand).Ends
      fun i => i.runner.config = j.runner.config :=
    ends_handle hP fun _ => .bind (.read _) fun _ => .bind (.ofNumeric _) fun _ =>
      .bind (.modify fun _ h => h) fun _ => .bind (told _) fun _ => .pure _
  rcases refused_or_begins e probe r listener j with ⟨f, -, hf⟩ | ⟨s, i, hi⟩
  · rw [hf]
    exact nofun
  · have config : i.runner.config = j.runner.config :=
      ((calm_begin (S := .any) r).of_run hi.begun).config
    have concluded (o : Except Failure ByteArray) : (conclude r listener o :
        Action (Job σ κ) JobResult).Ends fun i => i.runner.config = j.runner.config := by
      cases o with
      | error f => exact ends_fail hP _ _
      | ok content =>
        exact .bind (ends_enter hP _ _) fun _ => .bind (told _) fun _ =>
          .bind (ends_note hP _ _) fun _ => .bind (.read _) fun _ => .pure _
    have ends : ((perform e probe r s listener).attempt >>= conclude r listener).Ends
        fun i : Job σ κ => i.runner.config = j.runner.config :=
      .bind (ends_perform hP he (probed _) handled).attempt concluded
    rw [run_of_begins hi]
    exact (ends i config).1

/-- A run whose engine, probe and listener respond comes to an end. It has the end that it should
have, a result or the failure of the export, exactly if it is not refused before it begins and its
listener does not fail when it is told that the job is done. -/
theorem run_reported (he : e.Responsive j.runner.config) (hp : ∀ path, (probe path).Responds)
    (hl : ∀ tell, listener = some tell → ∀ value, (tell value).Responds) :
    ∃ o k, (run e probe r listener).run j = (o, k) ∧ Ending e probe r listener j o k ∧
      (Reported o k ↔ ∃ s i, Begins r s j i ∧ Tellable e probe r listener s i) := by
  rcases ran : (run e probe r listener).run j with ⟨o, k⟩
  have ends := ends_run (r := r) he hp hl
  rw [ran] at ends
  have ending := ending_of_run ran ends
  exact ⟨o, k, rfl, ending, ending.reported_iff⟩

end VideoExport.Job

namespace VideoExport.MemoryEngine

/-- Only loading and executing can stall an engine in memory. -/
theorem responsive {c : Config} (load : (Deadline.limit? (some c.loadLimit)).isSome = true)
    (render : (Deadline.limit? (some c.renderLimit)).isSome = true) : engine.Responsive c where
  write name content := by
    rw [Action.responds_iff]
    refine .get_bind fun w _ => ?_
    split
    · exact .bind (.modify fun _ => id) fun _ => .raise _
    · exact .bind (.modify fun _ => id) fun _ => .modify fun _ => id
  read name := by
    rw [Action.responds_iff]
    refine .get_bind fun w _ => ?_
    split
    · exact .bind (.modify fun _ => id) fun _ => .raise _
    · refine .bind (.modify fun _ => id) fun _ => ?_
      split
      · exact .pure _
      · exact .raise _
  delete name := by
    rw [Action.responds_iff]
    refine .get_bind fun w _ => ?_
    split
    · exact .bind (.modify fun _ => id) fun _ => .raise _
    · split
      · exact .bind (.modify fun _ => id) fun _ => .modify fun _ => id
      · exact .bind (.modify fun _ => id) fun _ => .raise _
  reset := fun _ => nofun
  load := .inr load
  execute := .inr render

end VideoExport.MemoryEngine

namespace VideoExport.Job

/-! ## A run that does not report -/

/-- The state before a job whose source is an octet, on an engine in memory. -/
def beforeOctet : Job MemoryEngine Unit where
  host := ((Host.writeFile "clip.mp4" ⟨#[0]⟩).run {}).2
  engine := {}
  runner := .ofConfig {}
  client := ()

/-- A listener that fails whatever it is told. -/
def failingListener : ProgressListener Unit := fun _ => .raise .nullCharacter

/-- A run with this listener. -/
def untoldRun : Outcome JobResult × Job MemoryEngine Unit :=
  (run MemoryEngine.engine unknownLength octetClip (some failingListener)).run beforeOctet

theorem beforeOctet_responsive : MemoryEngine.engine.Responsive beforeOctet.runner.config :=
  MemoryEngine.responsive (by decide +kernel) (by decide +kernel)

theorem run_reported_of_failing_listener :
    ∃ o k, untoldRun = (o, k) ∧ (Reported o k ↔ ∃ s i, Begins octetClip s beforeOctet i ∧
      Tellable MemoryEngine.engine unknownLength octetClip (some failingListener) s i) := by
  have responds : ∀ tell, some failingListener = some tell → ∀ value, (tell value).Responds := by
    rintro _ ⟨⟩ _ _
    exact nofun
  have responsive : MemoryEngine.engine.Responsive beforeOctet.runner.config := beforeOctet_responsive
  obtain ⟨o, k, ran, -, reported⟩ := run_reported (r := octetClip) responsive
    (fun _ _ => nofun : ∀ path, (unknownLength path).Responds) responds
  exact ⟨o, k, ran, reported⟩

/-- A listener that fails when it is told that the job is done: its failure is that of the run, which
is raised as it stands while the job counts as done. -/
theorem failing_listener_unreported :
    MemoryEngine.engine.Responsive beforeOctet.runner.config ∧
      (∀ value, (failingListener value).Responds) ∧
      (∃ f, untoldRun.1 = .raised f ∧ ∀ cause tail, f ≠ .exportFailed cause tail) ∧
      untoldRun.2.runner.state = .done ∧ ¬ Reported untoldRun.1 untoldRun.2 := by
  have raised : untoldRun.1 = .raised .nullCharacter := Outcome.refusedPath_eq (by decide +kernel)
  refine ⟨beforeOctet_responsive, fun _ _ => nofun, ⟨_, raised, nofun⟩, by decide +kernel, ?_⟩
  rintro (⟨_, h, -⟩ | ⟨_, _, h, -⟩)
  · exact nomatch raised.symm.trans h
  · exact nomatch raised.symm.trans h

end VideoExport.Job
