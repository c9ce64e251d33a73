import VideoExport.Proofs.Job.Phases
import VideoExport.Proofs.Staging

/-!
# The anatomy of a run

How far a run of a job gets, and what its end says about its phases. `Begins`, `Readies`, `Enters`
and `Executes` are the points that it passes: it starts, the engine is ready, it comes to its part in
working storage, and it executes its command. From there a run is what is left of it
(`run_of_begins`, `run_of_enters`), and the inversions `perform_cases`, `inStorage_eq` and
`transcode_cases` open it phase by phase. `renew_cases` and `ensureLoaded_cases` say all that making
the engine ready can do.
-/

set_option autoImplicit false

namespace VideoExport.Job

variable {σ κ : Type} {e : Engine σ} {probe : DurationProbe κ} {r : JobRequest} {s : Settings}
  {listener : Option (ProgressListener κ)}

/-! ## Points of a run -/

/-- A run starts with the settings `s`; it then stands at `i`. -/
structure Begins (r : JobRequest) (s : Settings) (j i : Job σ κ) : Prop where
  settings : Settings.sanitize r.settings r.attachments.image.isSome = .ok s
  limit : (j.runner.config.logBuffer.mapM checkLength).map (fun _ => ()) = .ok ()
  begun : (begin r).run j = (.returned (), i)

/-- The engine is ready for a run, which then stands at `a`; `d` is the length of its source. -/
def Readies (e : Engine σ) (probe : DurationProbe κ) (r : JobRequest) (s : Settings) (j : Job σ κ)
    (d : Number) (a : Job σ κ) : Prop :=
  ∃ i, Begins r s j i ∧ (ready e probe r s).run i = (.returned d, a)

/-- A run comes to its part in working storage, where it stands at `b`. -/
def Enters (e : Engine σ) (probe : DurationProbe κ) (r : JobRequest) (s : Settings) (j : Job σ κ)
    (d : Number) (b : Job σ κ) : Prop :=
  ∃ a, Readies e probe r s j d a ∧ (prepareFont e r s).run a = (.returned (), b)

/-- The start of the part in working storage. -/
def opening (r : JobRequest) : Action (Job σ κ) Unit := do
  enter r.id .staging
  .modify fun j => { j with claimed := [] }

/-- What stands between the start of the part in working storage and the command. -/
def lead (e : Engine σ) (r : JobRequest) (s : Settings) (d : Number) :
    Action (Job σ κ) (List String) := do
  opening r
  claimNames e (namesOf r s)
  let arguments ← stageFiles e r s (imageOf r s) (namesOf r s) d
  enter r.id .rendering
  return arguments

/-- A run comes to executing its command, which has the arguments; it then stands at `k`. -/
def Executes (e : Engine σ) (probe : DurationProbe κ) (r : JobRequest) (s : Settings) (j : Job σ κ)
    (arguments : List String) (k : Job σ κ) : Prop :=
  ∃ d b, Enters e probe r s j d b ∧ (lead e r s d).run b = (.returned arguments, k)

/-! ## Ends of a run -/

/-- The end of a run, from the end of all that may fail. -/
def conclude (r : JobRequest) (listener : Option (ProgressListener κ)) :
    Except Failure ByteArray → Action (Job σ κ) JobResult
  | .error cause => fail r.id cause
  | .ok content => complete r content listener

theorem config_run (j : Job σ κ) : config.run j = (.returned j.runner.config, j) := rfl

theorem run_of_begins {j i : Job σ κ} (h : Begins r s j i) :
    (run e probe r listener).run j =
      ((perform e probe r s listener).attempt >>= conclude r listener).run i := by
  unfold run
  rw [h.settings, Action.run_bind_of_returned (Action.run_ofNumeric_ok j s),
    Action.run_bind_of_returned (config_run j), h.limit,
    Action.run_bind_of_returned (Action.run_ofExcept_ok j ()),
    Action.run_bind_of_returned h.begun]
  refine congrArg (fun k => Action.run (Action.attempt _ >>= k) i) (funext fun o => ?_)
  cases o <;> rfl

variable (e probe r listener) in
/-- A run that does not start is refused, and changes nothing. -/
theorem run_cases (j : Job σ κ) :
    (∃ f, (run e probe r listener).run j = (.raised f, j)) ∨ ∃ s i, Begins r s j i := by
  cases hs : Settings.sanitize r.settings r.attachments.image.isSome with
  | error f =>
    refine .inl ⟨.numeric f, ?_⟩
    unfold run
    rw [hs]
    rfl
  | ok s =>
    cases hl : (j.runner.config.logBuffer.mapM checkLength).map (fun _ => ()) with
    | error f =>
      refine .inl ⟨f, ?_⟩
      unfold run
      rw [hs, Action.run_bind_of_returned (Action.run_ofNumeric_ok j s),
        Action.run_bind_of_returned (config_run j), hl]
      rfl
    | ok _ => exact .inr ⟨s, _, hs, hl, rfl⟩

/-- A failure of the export shows the end of the log as it stood. -/
theorem fail_tail {α : Type} {id : String} {cause : Failure} {j k : Job σ κ} {o : Outcome α}
    (h : (fail id cause).run j = (o, k)) :
    o = .raised (.exportFailed cause (tailLines j.runner.config.logTail j.log)) := by
  obtain ⟨_, _, hi, h⟩ := Action.bind_total h ⟨_, _, rfl⟩
  cases hi
  obtain ⟨_, _, hc, h⟩ := Action.bind_total h ⟨_, _, rfl⟩
  cases hc
  obtain ⟨_, _, ht, h⟩ := Action.bind_total h ⟨_, _, rfl⟩
  cases ht
  obtain ⟨_, _, -, h⟩ := Action.bind_total h ⟨_, _, rfl⟩
  dsimp only at h
  split at h <;> cases h <;> rfl

theorem fail_eq {α : Type} {id : String} {cause : Failure} {j k : Job σ κ} {o : Outcome α}
    (h : (fail id cause).run j = (o, k)) : ∃ tail, o = .raised (.exportFailed cause tail) :=
  ⟨_, fail_tail h⟩

/-- A run that starts does its work, and then reports how the work ended. -/
theorem conclude_cases {j i k : Job σ κ} {o : Outcome JobResult} (hi : Begins r s j i)
    (h : (run e probe r listener).run j = (o, k)) (ends : o ≠ .stalled) :
    (∃ f t, (perform e probe r s listener).run i = (.raised f, t) ∧
      (fail r.id f).run t = (o, k)) ∨
    ∃ content t, (perform e probe r s listener).run i = (.returned content, t) ∧
      (complete r content listener).run t = (o, k) := by
  rw [run_of_begins hi] at h
  rcases Action.bind_eq h with ⟨p, t, ht, h⟩ | ⟨f, ht, -⟩ | ⟨-, rfl⟩
  · cases p with
    | error f => exact .inl ⟨f, t, Action.attempt_error.1 ht, h⟩
    | ok content => exact .inr ⟨content, t, Action.attempt_ok.1 ht, h⟩
  · exact absurd ht Action.attempt_not_raised
  · exact absurd rfl ends

/-! ## Making the engine ready -/

section
variable {S : HostFrame} {j k : Job (Recorded σ) κ} {o : Outcome Unit}

theorem Calm.span {j k : Job (Recorded σ) κ} (h : Calm S j k) :
    Span e S j.toWorld [] k.toWorld := .of_host h.engine h.host

/-- An engine that is trusted, or that the configuration keeps, is left alone. Another one is reset;
if that returns, the engine is trusted again and no font is remembered. -/
theorem renew_cases (h : (renew e.recorded).run j = (o, k)) :
    (o = .returned () ∧ k = j ∧ (j.runner.trusted = true ∨ j.runner.config.renewEngine = false)) ∨
    (j.runner.trusted = false ∧ j.runner.config.renewEngine = true ∧
      ∃ c : EngineStep σ, c.act = .reset ∧ c.result = o ∧ Span e S j.toWorld [c] k.toWorld ∧
        (o = .returned () →
          k.runner = { j.runner with fonts := j.runner.fonts.forget, trusted := true }) ∧
        (o ≠ .returned () → k.runner = j.runner)) := by
  obtain ⟨_, _, ⟨⟩, h⟩ := Action.bind_total h ⟨_, _, Action.run_get j⟩
  split at h
  · rename_i hc
    obtain ⟨ht, hr⟩ : j.runner.trusted = false ∧ j.runner.config.renewEngine = true := by
      simpa using hc
    refine .inr ⟨ht, hr, ?_⟩
    obtain ⟨_, i, hi, h⟩ := Action.bind_total h ⟨_, _, rfl⟩
    have calm : Calm S j i := (calm_note _ _).of_run hi
    have runner : i.runner = j.runner := by
      cases hi
      rfl
    have reset {p : Outcome Unit} {l : Job (Recorded σ) κ}
        (h : (liftM e.recorded.reset : Action (Job (Recorded σ) κ) Unit).run i = (p, l)) :
        (∃ c : EngineStep σ, c.act = .reset ∧ c.result = p ∧ Span e S j.toWorld [c] l.toWorld) ∧
          l.runner = j.runner := by
      obtain ⟨w, hw, rfl⟩ := world_eq h
      obtain ⟨c, ha, hr, hs⟩ := Span.recorded (S := S) hw (.reset _)
      exact ⟨⟨c, ha, hr.trans p.end_unit, calm.span.append hs⟩, runner⟩
    rcases Action.bind_eq h with ⟨_, l, hl, h⟩ | ⟨f, hl, rfl⟩ | ⟨hl, rfl⟩
    · obtain ⟨⟨c, ha, hr, hs⟩, hl⟩ := reset hl
      cases h
      exact ⟨c, ha, hr, hs, fun _ => by rw [← hl], fun h => absurd rfl h⟩
    · obtain ⟨⟨c, ha, hr, hs⟩, hl⟩ := reset hl
      exact ⟨c, ha, hr, hs, nofun, fun _ => hl⟩
    · obtain ⟨⟨c, ha, hr, hs⟩, hl⟩ := reset hl
      exact ⟨c, ha, hr, hs, nofun, fun _ => hl⟩
  · rename_i hc
    cases h
    refine .inl ⟨rfl, rfl, ?_⟩
    cases ht : j.runner.trusted with
    | true => exact .inl rfl
    | false => exact .inr (by simpa [ht] using hc)

/-- The trust in an engine falls exactly if an operation took too long. -/
theorem distrusting_cases {α : Type} {x : Action (Job σ κ) α} {j k : Job σ κ} {o : Outcome α}
    (h : (distrusting x).run j = (o, k)) :
    (∃ a, o = .returned a ∧ x.run j = (.returned a, k)) ∨
    (∃ f t, o = .raised f ∧ x.run j = (.raised f, t) ∧ k.toStorage = t.toStorage ∧
      k.runner = { t.runner with trusted := t.runner.trusted && !f.isTimeLimit }) ∨
    (o = .stalled ∧ x.run j = (.stalled, k)) := by
  rcases Action.bind_eq h with ⟨a | f, t, hx, h⟩ | ⟨f, hx, -⟩ | ⟨hx, rfl⟩
  · refine .inr (.inl ⟨a, t, ?_⟩)
    dsimp only at h
    cases ht : a.isTimeLimit <;> rw [ht] at h <;> cases h
    · exact ⟨rfl, Action.attempt_error.1 hx, rfl, by simp⟩
    · exact ⟨rfl, Action.attempt_error.1 hx, rfl, by simp⟩
  · cases h
    exact .inl ⟨f, rfl, Action.attempt_ok.1 hx⟩
  · exact absurd hx Action.attempt_not_raised
  · exact .inr (.inr ⟨rfl, Action.attempt_stalled.1 hx⟩)

/-- An engine that is loaded is left alone. Another one is loaded; the trust in it falls exactly if
that takes too long. -/
theorem ensureLoaded_cases (h : (ensureLoaded e.recorded).run j = (o, k)) :
    (e.isLoaded j.engine.engine = true ∧ o = .returned () ∧ k = j) ∨
    (e.isLoaded j.engine.engine = false ∧ ∃ c : EngineStep σ, c.act = .load ∧
      Span e S j.toWorld [c] k.toWorld ∧ (o = .returned () ↔ c.result = .returned ()) ∧
      (o = .returned () → k.runner = j.runner) ∧
      ∀ f, o = .raised f →
        k.runner = { j.runner with trusted := j.runner.trusted && !f.isTimeLimit }) := by
  obtain ⟨_, _, ⟨⟩, h⟩ := Action.bind_total h ⟨_, _, Action.run_get j⟩
  split at h
  · rename_i hc
    cases h
    exact .inl ⟨hc, rfl, rfl⟩
  · rename_i hc
    refine .inr ⟨Bool.eq_false_iff.2 hc, ?_⟩
    have call {p : Outcome Unit} {t : Job (Recorded σ) κ} (h : (Deadline.call
        (some j.runner.config.loadLimit) .load (liftM e.recorded.load)).run j = (p, t)) :
        ∃ c : EngineStep σ, c.act = .load ∧ Span e S j.toWorld [c] t.toWorld ∧
          (p = .returned () ↔ c.result = .returned ()) ∧ t.runner = j.runner := by
      rcases Deadline.call_cases h with h | ⟨q, u, n, h, hq, hn⟩
      · obtain ⟨w, hw, rfl⟩ := world_eq h
        obtain ⟨c, ha, hr, hs⟩ := Span.recorded (S := S) hw (.load _)
        rw [Outcome.end_unit] at hr
        exact ⟨c, ha, hs, by rw [hr], rfl⟩
      · obtain ⟨w, hw, rfl⟩ := world_eq h
        obtain ⟨c, ha, hr, hs⟩ := Span.recorded (S := S) hw (.load _)
        rw [Outcome.end_unit] at hr
        obtain ⟨_, v, hv, h⟩ := Action.bind_total hn ⟨_, _, rfl⟩
        have calm : Calm S _ v := (calm_host ((Host.follows_log _ _ _).of_files S)).of_run hv
        have runner : v.runner = j.runner := by
          cases hv
          rfl
        cases h
        refine ⟨c, ha, hs.append calm.span, ⟨nofun, fun h => absurd (hr.symm.trans h) (hq ())⟩, runner⟩
    rcases distrusting_cases h with ⟨_, rfl, hx⟩ | ⟨f, t, rfl, hx, hk, hr⟩ | ⟨rfl, hx⟩
    · obtain ⟨c, ha, hs, hiff, hr⟩ := call hx
      exact ⟨c, ha, hs, hiff, fun _ => hr, nofun⟩
    · obtain ⟨c, ha, hs, hiff, ht⟩ := call hx
      rw [← hk] at hs
      refine ⟨c, ha, hs, ⟨nofun, fun h => nomatch hiff.2 h⟩, nofun, ?_⟩
      rintro _ ⟨⟩
      rw [hr, ht]
    · obtain ⟨c, ha, hs, hiff, hr⟩ := call hx
      exact ⟨c, ha, hs, hiff, nofun, nofun⟩

/-- Seeing to the font of a job never raises a failure. -/
theorem ensureFont_eq {font : Option MediaFile} {p : Outcome Bool}
    (h : (ensureFont e.recorded font).run j = (p, k)) (ends : p ≠ .stalled) :
    ∃ present, p = .returned present ∧ k.claimed = j.claimed ∧
      k.runner = { j.runner with fonts := k.runner.fonts } ∧
      FontLoader.Seen e S j.toWorld j.runner.fonts font present k.runner.fonts k.toWorld := by
  obtain ⟨_, _, ⟨⟩, h⟩ := Action.bind_total h ⟨_, _, Action.run_get j⟩
  have seen {q : Outcome (Bool × FontLoader)} {l : Job (Recorded σ) κ}
      (h : (liftM (j.runner.fonts.ensure e.recorded font) : Action (Job (Recorded σ) κ) _).run j =
        (q, l)) (hq : q ≠ .stalled) : ∃ present fonts, q = .returned (present, fonts) ∧
        l = { j with toWorld := l.toWorld } ∧
        FontLoader.Seen e S j.toWorld j.runner.fonts font present fonts l.toWorld := by
    obtain ⟨w, hw, rfl⟩ := world_eq h
    obtain ⟨present, fonts, rfl, seen⟩ := FontLoader.ensure_eq (S := S) hw hq
    exact ⟨present, fonts, rfl, rfl, seen⟩
  rcases Action.bind_eq h with ⟨⟨present, fonts⟩, l, hl, h⟩ | ⟨f, hl, rfl⟩ | ⟨-, rfl⟩
  · obtain ⟨_, _, ⟨⟩, hj, seen⟩ := seen hl nofun
    cases h
    refine ⟨present, rfl, ?_, ?_, seen⟩ <;> rw [hj]
  · obtain ⟨_, _, ⟨⟩, -⟩ := seen hl nofun
  · exact absurd rfl ends

/-- Without a text there is no font to see to. -/
theorem prepareFont_eq (h : (prepareFont e.recorded r s).run j = (o, k)) (ends : o ≠ .stalled) :
    o = .returned () ∧ (s.text.content.isEmpty = true ∧ k = j ∨
      s.text.content.isEmpty = false ∧ ∃ present,
        (ensureFont e.recorded r.attachments.font).run j = (.returned present, k)) := by
  unfold prepareFont at h
  cases ht : s.text.content.isEmpty with
  | true =>
    rw [ht] at h
    cases h
    exact ⟨rfl, .inl ⟨rfl, rfl⟩⟩
  | false =>
    rw [ht] at h
    rcases Action.bind_eq h with ⟨present, l, hl, h⟩ | ⟨f, hl, rfl⟩ | ⟨-, rfl⟩
    · cases h
      exact ⟨rfl, .inr ⟨rfl, present, hl⟩⟩
    · obtain ⟨_, ⟨⟩, -⟩ := ensureFont_eq (S := .any) hl nofun
    · exact absurd rfl ends

/-- Once the engine is ready, only finding the length of the source is left, which never raises a
failure. -/
theorem ready_cases {a : Job (Recorded σ) κ} {p : Outcome Number} {output : Path}
    (hb : Bystanders S probe listener output)
    (h : (ready e.recorded probe r s).run j = (p, a)) (ends : p ≠ .stalled) :
    (∃ f, (ensureEngine e.recorded).run j = (.raised f, a) ∧ p = .raised f) ∨
    (∃ d b, (ensureEngine e.recorded).run j = (.returned (), b) ∧ p = .returned d ∧
      Calm S b a) := by
  rcases Action.bind_eq h with ⟨_, b, hbe, h⟩ | ⟨f, hr, rfl⟩ | ⟨-, rfl⟩
  · refine .inr ?_
    split at h
    · rcases Action.bind_eq h with ⟨o, c, hc, h⟩ | ⟨f, hc, -⟩ | ⟨-, rfl⟩
      · have hcalm : Calm S b c := (calm_caller (hb.probe _)).attempt.of_run hc
        match o with
        | .ok none =>
          cases h
          exact ⟨_, b, hbe, rfl, hcalm⟩
        | .ok (some _) =>
          cases h
          exact ⟨_, b, hbe, rfl, hcalm⟩
        | .error _ =>
          obtain ⟨_, t, ht, h⟩ := Action.bind_total h ⟨_, _, rfl⟩
          cases h
          exact ⟨_, b, hbe, rfl, (calm S).trans hcalm ((calm_note _ _).of_run ht)⟩
      · exact absurd hc Action.attempt_not_raised
      · exact absurd rfl ends
    · cases h
      exact ⟨_, _, hbe, rfl, (calm S).refl _⟩
  · exact .inl ⟨f, hr, rfl⟩
  · exact absurd rfl ends

end

/-! ## The work of a run -/

section
variable {j k : Job (Recorded σ) κ} {o : Outcome ByteArray} {d : Number}

/-- The work of a run fails before the engine is ready, or its end is that of the part in working
storage. -/
theorem perform_cases (h : (perform e.recorded probe r s listener).run j = (o, k))
    (ends : o ≠ .stalled) :
    (∃ f, (ready e.recorded probe r s).run j = (.raised f, k) ∧ o = .raised f) ∨
    (∃ d a b, (ready e.recorded probe r s).run j = (.returned d, a) ∧
      (prepareFont e.recorded r s).run a = (.returned (), b) ∧
      (inStorage e.recorded r s d listener).run b = (o, k)) := by
  rcases Action.bind_eq h with ⟨d, a, ha, h⟩ | ⟨f, ha, rfl⟩ | ⟨-, rfl⟩
  · rcases Action.bind_eq h with ⟨_, b, hb, h⟩ | ⟨f, hb, rfl⟩ | ⟨-, rfl⟩
    · exact .inr ⟨d, a, b, ha, hb, h⟩
    · obtain ⟨⟨⟩, -⟩ := prepareFont_eq hb nofun
    · exact absurd rfl ends
  · exact .inl ⟨f, ha, rfl⟩
  · exact absurd rfl ends

/-- What a runner passes on from one job to the next besides the state of the last one. -/
def memory (j : Job σ κ) : Config × Bool × FontLoader :=
  (j.runner.config, j.runner.trusted, j.runner.fonts)

theorem Calm.memory {S : HostFrame} {j k : Job σ κ} (h : Calm S j k) : k.memory = j.memory := by
  unfold Job.memory
  rw [h.config, h.trusted, h.fonts]

theorem opening_eq {S : HostFrame} {p : Outcome Unit} (h : (opening r).run j = (p, k)) :
    p = .returned () ∧ k.claimed = [] ∧ k.memory = j.memory ∧ Span e S j.toWorld [] k.toWorld := by
  obtain ⟨_, i, hi, h⟩ := Action.bind_total h ⟨_, _, rfl⟩
  have hcalm : Calm S j i := (calm_enter _ _).of_run hi
  cases h
  exact ⟨rfl, rfl, hcalm.memory, hcalm.span⟩

/-- The names of a job are claimed once what is left under them is asked to be deleted. -/
theorem claimNames_eq {S : HostFrame} {p : Outcome Unit}
    (h : (claimNames e.recorded (namesOf r s)).run j = (p, k)) (ends : p ≠ .stalled)
    (unclaimed : j.claimed = []) :
    p = .returned () ∧ k.claimed = (namesOf r s).all ∧ k.memory = j.memory ∧
      ∃ new : List (EngineStep σ), new.map (·.act) = Storage.deletions (namesOf r s).all ∧
        Span e S j.toWorld new k.toWorld := by
  have purged {q : Outcome Unit} {l : Job (Recorded σ) κ}
      (h : (liftM (Storage.purge e.recorded (namesOf r s).all) :
        Action (Job (Recorded σ) κ) Unit).run j = (q, l)) (hq : q ≠ .stalled) :
      q = .returned () ∧ l.claimed = [] ∧ l.memory = j.memory ∧
        ∃ new : List (EngineStep σ), new.map (·.act) = Storage.deletions (namesOf r s).all ∧
          Span e S j.toWorld new l.toWorld := by
    obtain ⟨t, ht, rfl⟩ := storage_eq h
    unfold Storage.purge at ht
    rw [List.filter_eq_self.2 fun n hn => by rw [namesOf_nonempty n hn]; rfl] at ht
    obtain ⟨hq, hc, new, hn, hs⟩ := Storage.discardAll_eq (S := S) ht hq
    exact ⟨hq, hc.trans unclaimed, rfl, new, hn, hs⟩
  rcases Action.bind_eq h with ⟨_, i, hi, h⟩ | ⟨f, hi, rfl⟩ | ⟨-, rfl⟩
  · obtain ⟨-, hc, hm, new, hn, hs⟩ := purged hi nofun
    obtain ⟨t, ht, rfl⟩ := storage_eq h
    have fresh : ∀ n ∈ (namesOf r s).all, n ∉ i.claimed := fun n _ => by
      rw [hc]
      exact List.not_mem_nil
    rw [Storage.claimAll_eq namesOf_nodup namesOf_nonempty fresh] at ht
    cases ht
    exact ⟨rfl, by rw [hc]; rfl, hm, new, hn, hs⟩
  · obtain ⟨⟨⟩, -⟩ := purged hi nofun
  · exact absurd rfl ends

/-- The part in working storage ends as the transcoding does: what comes before it and after it
never raises a failure. -/
theorem inStorage_eq {S : HostFrame}
    (h : (inStorage e.recorded r s d listener).run j = (o, k)) (ends : o ≠ .stalled) :
    ∃ c u, (opening r >>= fun _ => claimNames e.recorded (namesOf r s)).run j = (.returned (), c) ∧
      (transcode e.recorded r s (imageOf r s) (namesOf r s) d listener).run c = (o, u) ∧
      k.runner = u.runner ∧ ∃ last : List (EngineStep σ),
        last.map (·.act) = Storage.deletions u.claimed.reverse ∧
          Span e S u.toWorld last k.toWorld := by
  obtain ⟨_, i, hi, h⟩ := Action.bind_total h ⟨_, _, rfl⟩
  obtain ⟨_, c, hc, h⟩ := Action.bind_total h ⟨_, _, rfl⟩
  have open' : (opening r).run j = (.returned (), c) :=
    (Action.run_bind_of_returned hi).trans hc
  obtain ⟨p, u, hu, hp, hl⟩ := Action.ensuring_eq h ends
  have unclaimed : c.claimed = [] := (opening_eq (S := S) (e := e) open').2.1
  have released {q : Outcome Unit}
      (h : (liftM (Storage.release e.recorded) : Action (Job (Recorded σ) κ) Unit).run u = (q, k))
      (hq : q ≠ .stalled) : q = .returned () ∧ k.runner = u.runner ∧
        ∃ last : List (EngineStep σ), last.map (·.act) = Storage.deletions u.claimed.reverse ∧
          Span e S u.toWorld last k.toWorld := by
    obtain ⟨t, ht, rfl⟩ := storage_eq h
    obtain ⟨hq, -, hr⟩ := Storage.release_eq (S := S) ht hq
    exact ⟨hq, rfl, hr⟩
  rcases hl with ⟨hl, rfl⟩ | ⟨f, hl, rfl⟩
  · obtain ⟨-, hr, hlast⟩ := released hl nofun
    rcases Action.bind_eq hu with ⟨_, b, hb, hu⟩ | ⟨f, hb, rfl⟩ | ⟨-, rfl⟩
    · exact ⟨b, u, (Action.run_bind_of_returned open').trans hb, hu, hr, hlast⟩
    · obtain ⟨⟨⟩, -⟩ := claimNames_eq (S := S) hb nofun unclaimed
    · exact absurd rfl ends
  · obtain ⟨⟨⟩, -⟩ := released hl nofun

/-- Transcoding ends as the staging of its files, the execution of its command or the collection of
its output does. -/
theorem transcode_cases {e : Engine σ} {j k : Job σ κ} {image : Option MediaFile}
    {names : JobNames} (h : (transcode e r s image names d listener).run j = (o, k))
    (ends : o ≠ .stalled) :
    (∃ f, (stageFiles e r s image names d).run j = (.raised f, k) ∧ o = .raised f) ∨
    ∃ arguments m, (stageFiles e r s image names d >>= fun arguments => do
        enter r.id .rendering
        return arguments).run j = (.returned arguments, m) ∧
      ((∃ f, (render e r.id arguments listener).run m = (.raised f, k) ∧ o = .raised f) ∨
      ∃ v w, (render e r.id arguments listener).run m = (.returned (), v) ∧
        (enter r.id .readingOutput).run v = (.returned (), w) ∧
        (collect e r names).run w = (o, k)) := by
  rcases Action.bind_eq h with ⟨arguments, i, hi, h⟩ | ⟨f, hi, rfl⟩ | ⟨-, rfl⟩
  · obtain ⟨_, m, hm, h⟩ := Action.bind_total h ⟨_, _, rfl⟩
    refine .inr ⟨arguments, m, ?_, ?_⟩
    · rw [Action.run_bind_of_returned hi, Action.run_bind_of_returned hm]
      rfl
    · rcases Action.bind_eq h with ⟨_, v, hv, h⟩ | ⟨f, hv, rfl⟩ | ⟨-, rfl⟩
      · obtain ⟨_, w, hw, h⟩ := Action.bind_total h ⟨_, _, rfl⟩
        exact .inr ⟨v, w, hv, hw, h⟩
      · exact .inl ⟨f, hv, rfl⟩
      · exact absurd rfl ends
  · exact .inl ⟨f, hi, rfl⟩
  · exact absurd rfl ends

end

/-! ## What a run touches -/

/-- An act that touches no entries but those of the names. -/
def Among (names : List String) (act : EngineAct) : Prop := ∀ n, act.Touches n → n ∈ names

theorem among_execution {names arguments : List String} {name : String} {act : EngineAct}
    (hl : arguments.getLast? = some name) (h : name ∈ names)
    (ha : act = .execute arguments ∨ act.IsOf arguments) : Among names act := by
  intro n hn
  have touched : arguments.getLast? = some n := by
    rcases ha with rfl | ha
    · exact hn
    · exact ha.touches.1 hn
  exact Option.some.inj (hl.symm.trans touched) ▸ h

theorem among_deletions {names : List String} {steps : List (EngineStep σ)}
    (h : steps.map (·.act) = Storage.deletions names) : ∀ c ∈ steps, Among names c.act := by
  intro c hc
  have hm : c.act ∈ Storage.deletions names := h ▸ List.mem_map_of_mem hc
  obtain ⟨n, hn, ha⟩ := List.mem_map.1 hm
  rw [← ha]
  rintro _ rfl
  exact hn

section
variable {S : HostFrame} {d : Number} {j k : Job (Recorded σ) κ}

/-- Transcoding touches only entries of the job, and keeps what is claimed. -/
theorem working_transcode {T : Evolution Bool} (hT : ∀ b, T b false)
    (hb : Bystanders S probe listener r.output) :
    (transcode e.recorded r s (imageOf r s) (namesOf r s) d listener :
      Action (Job (Recorded σ) κ) ByteArray).Follows
      (working e S (Among (namesOf r s).all) (namesOf r s).all T) := by
  have output : (namesOf r s).output ∈ (namesOf r s).all := JobNames.mem_all.2 (.inr (.inl rfl))
  have staged : (stageFiles e.recorded r s (imageOf r s) (namesOf r s) d :
      Action (Job (Recorded σ) κ) (List String)).Follows
      (working e S (Among (namesOf r s).all) (namesOf r s).all T) :=
    working_stageFiles r s _ d (fun _ h => h)
      fun _ h _ _ hn => hn ▸ JobNames.mem_all_of_staged h
  intro j
  unfold transcode
  rw [Action.run_bind]
  rcases hs : (stageFiles e.recorded r s (imageOf r s) (namesOf r s) d).run j with
    ⟨arguments | f | _, t⟩
  · refine (working e S _ _ T).trans (staged.of_run hs) ?_
    -- only now the output is known to be the last argument
    have last := stageFiles_getLast hs
    have rest : (do
        enter r.id .rendering
        render e.recorded r.id arguments listener
        enter r.id .readingOutput
        collect e.recorded r (namesOf r s) : Action (Job (Recorded σ) κ) ByteArray).Follows
        (working e S (Among (namesOf r s).all) (namesOf r s).all T) :=
      .bind (working_calm (calm_enter _ _)) fun _ =>
        .bind (working_render hb hT (among_execution last output (.inl rfl))
          fun _ h => among_execution last output (.inr h)) fun _ =>
        .bind (working_calm (calm_enter _ _)) fun _ => working_collect hb nofun
    exact rest t
  · exact staged.of_run hs
  · exact staged.of_run hs

/-- What comes before the command: what is left under the names of the job is deleted, the names are
claimed, and the files are staged. -/
theorem lead_split {arguments : List String}
    (h : (lead e.recorded r s d).run j = (.returned arguments, k)) :
    ∃ (c m : Job (Recorded σ) κ) (purged : List (EngineStep σ)),
      c.claimed = (namesOf r s).all ∧ c.memory = j.memory ∧
      purged.map (·.act) = Storage.deletions (namesOf r s).all ∧
      (∀ S, Span e S j.toWorld purged c.toWorld) ∧
      (stageFiles e.recorded r s (imageOf r s) (namesOf r s) d).run c = (.returned arguments, m) ∧
      ∀ S, Calm S m k := by
  obtain ⟨_, i, hi, h⟩ := Action.bind_returned h
  obtain ⟨_, c, hc, h⟩ := Action.bind_returned h
  obtain ⟨_, m, hm, h⟩ := Action.bind_returned h
  obtain ⟨_, _, hn, h⟩ := Action.bind_returned h
  cases h
  obtain ⟨-, unclaimed, memory, -⟩ := opening_eq (S := .any) (e := e) hi
  obtain ⟨-, claimed, memory', purged, acts, spurged⟩ := claimNames_eq (S := .any) hc nofun unclaimed
  refine ⟨c, m, purged, claimed, memory'.trans memory, acts, fun S => ?_, hm,
    fun S => (calm_enter _ _).of_run hn⟩
  obtain ⟨-, -, -, opened⟩ := opening_eq (S := S) (e := e) hi
  obtain ⟨-, -, -, purged', -, span⟩ := claimNames_eq (S := S) hc nofun unclaimed
  rw [span.unique spurged.steps] at span
  exact opened.append span

/-- What comes before the command touches only entries of the job. -/
theorem lead_eq {arguments : List String}
    (h : (lead e.recorded r s d).run j = (.returned arguments, k)) :
    k.memory = j.memory ∧ ∃ new : List (EngineStep σ), Span e S j.toWorld new k.toWorld ∧
      ∀ c ∈ new, Among (namesOf r s).all c.act := by
  obtain ⟨c, m, purged, -, memory, acts, spurged, hm, entered⟩ := lead_split h
  have staging : (stageFiles e.recorded r s (imageOf r s) (namesOf r s) d :
      Action (Job (Recorded σ) κ) (List String)).Follows
      (working e S (Among (namesOf r s).all) (namesOf r s).all .still) :=
    working_stageFiles r s _ d (fun _ h => h)
      fun _ h _ _ hn => hn ▸ JobNames.mem_all_of_staged h
  have staged : Working e S (Among (namesOf r s).all) (namesOf r s).all .still c m :=
    staging.of_run hm
  obtain ⟨⟨new, snew, hnew⟩, -⟩ := staged.storage
  refine ⟨?_, purged ++ new, ?_, fun x hx => ?_⟩
  · rw [(entered S).memory, ← memory]
    unfold Job.memory
    rw [staged.config, staged.fonts, show m.runner.trusted = c.runner.trusted from staged.trusted]
  · have span := ((spurged S).append snew).append (entered S).span
    rwa [List.append_nil] at span
  · rcases List.mem_append.1 hx with hx | hx
    · exact among_deletions acts x hx
    · exact hnew x hx

/-- What is not true does not become so. -/
def falling : Evolution Bool where
  Holds b b' := b' = true → b = true
  refl _ := id
  trans h₁ h₂ h := h₁ (h₂ h)

/-- The part in working storage touches only entries of the job, and asks last to delete them. It
does not restore the trust in the engine. -/
theorem inStorage_steps {o : Outcome ByteArray} (hb : Bystanders S probe listener r.output)
    (h : (inStorage e.recorded r s d listener).run j = (o, k)) (ends : o ≠ .stalled) :
    ∃ work last : List (EngineStep σ), Span e S j.toWorld (work ++ last) k.toWorld ∧
      (∀ c ∈ work, Among (namesOf r s).all c.act) ∧
      last.map (·.act) = Storage.deletions (namesOf r s).all.reverse ∧
      k.runner.config = j.runner.config ∧ k.runner.fonts = j.runner.fonts ∧
      (k.runner.trusted = true → j.runner.trusted = true) := by
  obtain ⟨c, u, hc, hu, hr, last, hlast, slast⟩ := inStorage_eq (S := S) h ends
  obtain ⟨_, i, hi, hc⟩ := Action.bind_returned hc
  obtain ⟨-, unclaimed, memory, sopen⟩ := opening_eq (S := S) (e := e) hi
  obtain ⟨-, claimed, memory', purged, hpurged, spurged⟩ :=
    claimNames_eq (S := S) hc nofun unclaimed
  have worked : Working e S (Among (namesOf r s).all) (namesOf r s).all falling c u :=
    (working_transcode (fun _ h => absurd h Bool.false_ne_true) hb).of_run hu
  obtain ⟨⟨mid, smid, hmid⟩, hclaims⟩ := worked.storage
  have kept : u.claimed = (namesOf r s).all :=
    (hclaims fun n hn => show n ∈ c.claimed from claimed ▸ hn).trans claimed
  rw [kept] at hlast
  have same := memory'.trans memory
  unfold Job.memory at same
  obtain ⟨config, rest⟩ := Prod.mk.inj same
  obtain ⟨trusted, fonts⟩ := Prod.mk.inj rest
  refine ⟨purged ++ mid, last, ?_, fun x hx => ?_, hlast, ?_, ?_, fun h => ?_⟩
  · exact ((sopen.append spurged).append smid).append slast
  · rcases List.mem_append.1 hx with hx | hx
    · exact among_deletions hpurged x hx
    · exact hmid x hx
  · rw [hr, worked.config, config]
  · rw [hr, worked.fonts, fonts]
  · rw [hr] at h
    rw [← trusted]
    exact worked.trusted h

theorem run_config {o : Outcome JobResult}
    (ran : (run e.recorded probe r listener).run j = (o, k)) :
    k.runner.config = j.runner.config :=
  ((tracing_run (S := .any) (.any probe listener r.output)).of_run ran).2

/-- What is left of a run once the engine is ready. -/
def rest (e : Engine σ) (r : JobRequest) (s : Settings) (d : Number)
    (listener : Option (ProgressListener κ)) : Action (Job σ κ) JobResult := do
  let o ← Action.attempt do
    prepareFont e r s
    inStorage e r s d listener
  conclude r listener o

theorem tracing_rest (hb : Bystanders S probe listener r.output) :
    (rest e.recorded r s d listener : Action (Job (Recorded σ) κ) JobResult).Follows
      (tracing e S fun _ => True) := by
  have worked : (prepareFont e.recorded r s >>= fun _ => inStorage e.recorded r s d listener :
      Action (Job (Recorded σ) κ) ByteArray).Follows (tracing e S fun _ => True) :=
    .bind (tracing_prepareFont fun _ => trivial) fun _ =>
      tracing_inStorage hb (fun _ _ => trivial) fun _ => trivial
  refine .bind worked.attempt fun o => ?_
  cases o with
  | error f => exact tracing_calm (calm_fail _ _)
  | ok content => exact tracing_calm (calm_complete hb r content)

/-- Whether it ends or not: a run is refused, or it makes the engine ready and, if that succeeds, goes
on with the rest. -/
theorem run_split {o : Outcome JobResult}
    (ran : (run e.recorded probe r listener).run j = (o, k)) :
    k = j ∨ ∃ s i p a, Begins r s j i ∧ (ready e.recorded probe r s).run i = (p, a) ∧
      ((∃ d, p = .returned d ∧ (rest e.recorded r s d listener).run a = (o, k)) ∨
        (∀ d, p ≠ .returned d) ∧ Calm S a k) := by
  rcases run_cases e.recorded probe r listener j with ⟨f, hf⟩ | ⟨s, i, hi⟩
  · exact .inl (Prod.mk.inj (ran.symm.trans hf)).2
  · rw [run_of_begins hi] at ran
    rcases hp : (ready e.recorded probe r s).run i with ⟨p, a⟩
    refine .inr ⟨s, i, p, a, hi, hp, ?_⟩
    match p with
    | .returned d =>
      have performed : (perform e.recorded probe r s listener).run i =
          (prepareFont e.recorded r s >>= fun _ => inStorage e.recorded r s d listener).run a :=
        Action.run_bind_of_returned hp
      rw [Action.run_bind, Action.run_attempt, performed, ← Action.run_attempt,
        ← Action.run_bind] at ran
      exact .inl ⟨d, rfl, ran⟩
    | .raised f =>
      have performed : (perform e.recorded probe r s listener).run i = (.raised f, a) :=
        Action.run_bind_of_raised hp
      rw [Action.run_bind_of_returned (Action.attempt_error.2 performed)] at ran
      exact .inr ⟨fun _ => nofun, (calm_fail _ _).of_run ran⟩
    | .stalled =>
      have performed : (perform e.recorded probe r s listener).run i = (.stalled, a) := by
        unfold perform
        rw [Action.run_bind, hp]
      rw [Action.run_bind, Action.attempt_stalled.2 performed] at ran
      cases ran
      exact .inr ⟨fun _ => nofun, (calm S).refl k⟩

/-- A run is refused, or fails before the engine is ready, or comes through all of its phases. What
fails on the way is the cause of the failure that it raises. -/
theorem run_phases {o : Outcome JobResult} (hb : Bystanders S probe listener r.output)
    (ran : (run e.recorded probe r listener).run j = (o, k)) (ends : o ≠ .stalled) :
    ((∃ f, o = .raised f) ∧ k = j) ∨ ∃ s i, Begins r s j i ∧
      ((∃ f a, (ready e.recorded probe r s).run i = (.raised f, a) ∧ Calm S a k) ∨
        ∃ d a b p t, (ready e.recorded probe r s).run i = (.returned d, a) ∧
          (prepareFont e.recorded r s).run a = (.returned (), b) ∧
          (inStorage e.recorded r s d listener).run b = (p, t) ∧ p ≠ .stalled ∧ Calm S t k ∧
          ∀ f, p = .raised f → ∃ tail, o = .raised (.exportFailed f tail)) := by
  rcases run_cases e.recorded probe r listener j with ⟨f, hf⟩ | ⟨s, i, hi⟩
  · obtain ⟨rfl, rfl⟩ := Prod.mk.inj (hf.symm.trans ran)
    exact .inl ⟨⟨f, rfl⟩, rfl⟩
  · refine .inr ⟨s, i, hi, ?_⟩
    obtain ⟨p, t, ht, hp, reported, cause⟩ : ∃ p t,
        (perform e.recorded probe r s listener).run i = (p, t) ∧ p ≠ .stalled ∧ Calm S t k ∧
          ∀ f, p = .raised f → ∃ tail, o = .raised (.exportFailed f tail) := by
      rcases conclude_cases hi ran ends with ⟨f, t, ht, h⟩ | ⟨content, t, ht, h⟩
      · refine ⟨_, t, ht, nofun, (calm_fail _ _).of_run h, ?_⟩
        rintro _ ⟨⟩
        exact fail_eq h
      · exact ⟨_, t, ht, nofun, (calm_complete hb r content).of_run h, nofun⟩
    rcases perform_cases ht hp with ⟨f, hf, -⟩ | ⟨d, a, b, ha, hf, hs⟩
    · exact .inl ⟨f, t, hf, reported⟩
    · exact .inr ⟨d, a, b, p, t, ha, hf, hs, hp, reported, cause⟩

end

end VideoExport.Job
