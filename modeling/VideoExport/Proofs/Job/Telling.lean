import VideoExport.Proofs.Deadline
import VideoExport.Proofs.Job.Client
import VideoExport.Proofs.Job.Report

/-!
# What a run tells of its progress

A client that keeps what it hears (`Hears`) hears, while the engine executes the command of a run, the
largest fraction so far after each report of the engine, and that the job is done, should it be
(`run_tells`). The values ascend. They are those of this run alone, whatever the state in which an earlier
one left the runner.
-/

set_option autoImplicit false

namespace VideoExport

theorem Execution.events_zoom {ω ω' ε : Type} (part : ω → ω') (put : ω → ω' → ω)
    (x : Execution ω' ε) : (x.zoom part put).events = x.events := by
  simp [events, zoom, Function.comp_def]

namespace Job

variable {σ κ : Type} {e : Engine σ} {probe : DurationProbe κ} {tell : ProgressListener κ}
  {r : JobRequest} {s : Settings} {heard : κ → List Binary64} {before history : List Binary64}
  {events : List EngineEvent} {j k : Job σ κ}

/-- The client keeps the values that it is told, and nobody else changes them. -/
structure Hears (heard : κ → List Binary64) (probe : DurationProbe κ) (tell : ProgressListener κ) :
    Prop where
  told : ∀ value c, heard ((tell value).run c).2.client = heard c.client ++ [value]
  probed : ∀ path c, heard ((probe path).run c).2.client = heard c.client

/-- What was heard and the progress of a job stay as they are. -/
def still (heard : κ → List Binary64) : Evolution (Job σ κ) :=
  .same fun j => (heard j.client, j.tracker)

theorem untold_still : Untold (still (σ := σ) heard) := by
  intro j k client tracker
  show (heard k.client, k.tracker) = (heard j.client, j.tracker)
  rw [client, tracker]

theorem Hears.ready (hears : Hears heard probe tell) :
    (ready e probe r s : Action (Job σ κ) Number).Follows (still heard) :=
  (untold_still.frame e).ready fun path => .zoom (F := .same fun c : Caller κ => heard c.client)
    (hears.probed path) fun _ _ h => Prod.ext h rfl

theorem Hears.tellProgress_run (hears : Hears heard probe tell) {value : Binary64} {o : Outcome Unit}
    (h : (tellProgress (some tell) value).run j = (o, k)) :
    heard k.client = heard j.client ++ [value] ∧ k.tracker = j.tracker := by
  obtain ⟨c, hc, rfl⟩ := caller_eq h
  have told := hears.told value ⟨j.host, j.client⟩
  rw [hc] at told
  exact ⟨told, rfl⟩

/-! ## Reports -/

/-- After some events of the engine, what was heard besides `before` is what their reports show. -/
def Follows (heard : κ → List Binary64) (before : List Binary64) (events : List EngineEvent)
    (j : Job σ κ) : Prop :=
  heard j.client = before ++ j.tracker.history ∧
    ∃ fractions, j.tracker.Shows (events.filterMap EngineEvent.report?) fractions

theorem Follows.keep (h : Follows heard before events j) (hk : still heard j k) :
    Follows heard before events k := by
  obtain ⟨client, tracker⟩ := Prod.mk.inj hk
  unfold Follows
  rw [client, tracker]
  exact h

/-- An event that is no report tells nothing. -/
theorem Follows.skip {event : EngineEvent} (h : Follows heard before events j)
    (silent : event.report? = none) : Follows heard before (events ++ [event]) j := by
  unfold Follows
  rw [List.filterMap_append, List.filterMap_cons_none silent, List.filterMap_nil, List.append_nil]
  exact h

/-- Handling an event tells the report that it may be, unless its number cannot be shown. -/
theorem Follows.handle (hears : Hears heard probe tell) {id : String} {event : EngineEvent}
    {o : Outcome Deadline.Demand} (h : Follows heard before events j)
    (ran : (Job.handle id (some tell) event).run j = (o, k)) :
    Follows heard before (events ++ [event]) k ∨
      (∀ d, o ≠ .returned d) ∧ Follows heard before events k := by
  cases event with
  | log message =>
    have kept : (Job.handle id (some tell) (.log message) : Action (Job σ κ) _).Follows
        (still heard) :=
      .bind (.read _) fun _ => .bind (.modify fun _ => rfl) fun _ =>
        .bind (untold_still.host _) fun _ => .pure _
    exact .inl ((h.skip rfl).keep (kept.of_run ran))
  | progress report =>
    obtain ⟨client, fractions, shows⟩ := h
    obtain ⟨_, _, ⟨⟩, ran⟩ := Action.bind_total ran ⟨_, _, rfl⟩
    cases hu : j.tracker.update report.number? with
    | error f =>
      rw [hu] at ran
      cases ran
      exact .inr ⟨nofun, client, fractions, shows⟩
    | ok u =>
      rw [hu, Action.run_bind_of_returned (Action.run_ofNumeric_ok _ _)] at ran
      obtain ⟨_, i, hi, ran⟩ := Action.bind_total ran ⟨_, _, rfl⟩
      cases hi
      obtain ⟨x, shows', history⟩ := shows.update hu
      have told {p : Outcome Unit} {v : Job σ κ} (hv : (tellProgress (some tell) u.value).run
          { j with tracker := u } = (p, v)) : Follows heard before (events ++ [.progress report]) v := by
        obtain ⟨heard', tracker⟩ := hears.tellProgress_run hv
        refine ⟨?_, fractions ++ [x], ?_⟩
        · rw [heard', tracker, history, ← List.append_assoc, ← client]
        · rw [tracker]
          simpa [EngineEvent.report?] using shows'
      rcases Action.bind_eq ran with ⟨_, v, hv, ran⟩ | ⟨f, hv, -⟩ | ⟨hv, -⟩
      · cases ran
        exact .inl (told hv)
      · exact .inl (told hv)
      · exact .inl (told hv)
  | other v =>
    cases ran
    exact .inl (h.skip rfl)

/-- Executing a command tells the reports among a first part of its events, and all of them if it ends
well. -/
theorem Follows.render (hears : Hears heard probe tell) {id : String} {arguments : List String}
    {o : Outcome Unit} (h : Follows heard before [] j)
    (ran : (Job.render e id arguments (some tell)).run j = (o, k)) :
    (Follows heard before [] k ∧ o ≠ .returned ()) ∨ ∃ x w part,
      (e.execute arguments).run j.toWorld = (.returned x, w) ∧ part <+: x.events ∧
      Follows heard before part k ∧ (o = .returned () → part = x.events) := by
  obtain ⟨_, _, hc, ran⟩ := Action.bind_total ran ⟨_, _, config_run j⟩
  cases hc
  have frame := (untold_still : Untold (still (σ := σ) heard)).frame e
  obtain ⟨p, t, ht, after, returned⟩ := frame.distrusting_split ran
  rcases Deadline.relay_delivers (I := Follows heard before) (F := still heard)
    (fun hk h => h.keep hk) (frame.start trivial)
    (fun started => (frame.started (fun _ _ => trivial) started).hands fun hk h => h.keep hk)
    (fun h ran => h.handle hears ran) (fun _ _ _ _ h => handle_more h) h ht with
    ⟨none, failed⟩ | ⟨y, t', part, started, among, told, all⟩
  · exact .inl ⟨none.keep after, fun ho => failed (returned _ ho)⟩
  · obtain ⟨x, i, hx, hy⟩ := Action.bind_returned started
    cases hy
    obtain ⟨w, hw, -⟩ := world_eq hx
    rw [Execution.events_zoom] at among all
    exact .inr ⟨x, w, part, hw, among, told.keep after, fun ho => all (returned _ ho)⟩

/-! ## Runs -/

/-- The work of a run, apart from the execution of its command, does what a frame takes in. -/
theorem perform_split {P : EngineAct → Prop} {G : Evolution (World σ)} {F : Evolution (Job σ κ)}
    (frame : Frame e P G F) (reads : P (.read (namesOf r s).output))
    (entered : ∀ state, (enter r.id state : Action (Job σ κ) Unit).Follows F)
    {listener : Option (ProgressListener κ)} {o : Outcome ByteArray}
    (asked : (ready e probe r s : Action (Job σ κ) Number).Follows F)
    (h : (perform e probe r s listener).run j = (o, k)) :
    (F j k ∧ ∀ content, o ≠ .returned content) ∨ ∃ d a b arguments m q v,
      (ready e probe r s).run j = (.returned d, a) ∧ (prepareFont e r s).run a = (.returned (), b) ∧
      (lead e r s d).run b = (.returned arguments, m) ∧ F j m ∧
      (render e r.id arguments listener).run m = (q, v) ∧ F v k ∧
      ∀ content, o = .returned content → q = .returned () := by
  rcases Action.bind_split asked h with none | ⟨d, a, ha, toA, h⟩
  · exact .inl none
  rcases Action.bind_split frame.prepareFont h with ⟨none, failed⟩ | ⟨_, b, hb, prepared, h⟩
  · exact .inl ⟨F.trans toA none, failed⟩
  have toB : F j b := F.trans toA prepared
  obtain ⟨_, i, hi, h⟩ := Action.bind_total h ⟨_, _, rfl⟩
  obtain ⟨_, c, hc, h⟩ := Action.bind_total h ⟨_, _, rfl⟩
  have opened : (opening r).run b = (.returned (), c) := (Action.run_bind_of_returned hi).trans hc
  have toC : F j c := F.trans (F.trans toB ((entered _).of_run hi)) (frame.unclaim.of_run hc)
  obtain ⟨p, t, ht, released, returned⟩ := Action.ensuring_split frame.release h
  have failed (toT : F j t) (hp : ∀ content, p ≠ .returned content) :
      F j k ∧ ∀ content, o ≠ .returned content :=
    ⟨F.trans toT released, fun content ho => hp content (returned content ho)⟩
  rcases Action.bind_split (frame.claimNames _) ht with ⟨none, noResult⟩ | ⟨_, n, hn, claimed, ht⟩
  · exact .inl (failed (F.trans toC none) noResult)
  rcases Action.bind_split (frame.stageFiles _ _ _) ht with
    ⟨none, noResult⟩ | ⟨arguments, l, hl, staged, ht⟩
  · exact .inl (failed (F.trans (F.trans toC claimed) none) noResult)
  obtain ⟨_, m, hm, ht⟩ := Action.bind_total ht ⟨_, _, rfl⟩
  have toM : F j m :=
    F.trans (F.trans (F.trans toC claimed) staged) ((entered _).of_run hm)
  have led : (lead e r s d).run b = (.returned arguments, m) := by
    unfold lead
    rw [Action.run_bind_of_returned opened, Action.run_bind_of_returned hn,
      Action.run_bind_of_returned hl, Action.run_bind_of_returned hm]
    rfl
  rcases Action.bind_eq ht with ⟨_, v, hv, ht⟩ | ⟨f, hv, rfl⟩ | ⟨hv, rfl⟩
  · have rest : (do
        enter r.id .readingOutput
        collect e r (namesOf r s) : Action (Job σ κ) ByteArray).Follows F :=
      .bind (entered _) fun _ => frame.collect reads
    exact .inr ⟨d, a, b, arguments, m, _, v, ha, hb, led, toM, hv,
      F.trans (rest.of_run ht) released, fun _ _ => rfl⟩
  · exact .inr ⟨d, a, b, arguments, m, _, t, ha, hb, led, toM, hv, released,
      fun content ho => nomatch returned content ho⟩
  · exact .inr ⟨d, a, b, arguments, m, _, t, ha, hb, led, toM, hv, released,
      fun content ho => nomatch returned content ho⟩

/-- A run from `j` starts the execution `x` of its command. -/
def Commands (e : Engine σ) (probe : DurationProbe κ) (r : JobRequest) (j : Job σ κ)
    (x : Execution (World σ) EngineEvent) : Prop :=
  ∃ s arguments m w, Executes e probe r s j arguments m ∧
    (e.execute arguments).run m.toWorld = (.returned x, w)

/-- The work of a run tells the reports among a first part of the events of its command, and all of
them if it is done. -/
theorem perform_tells (hears : Hears heard probe tell) {i : Job σ κ} {o : Outcome ByteArray}
    (begins : Begins r s j i) (h : Follows heard before [] i)
    (ran : (perform e probe r s (some tell)).run i = (o, k)) :
    ∃ events, Follows heard before events k ∧
      (events = [] ∨ ∃ x, Commands e probe r j x ∧ events <+: x.events) ∧
      ∀ content, o = .returned content → ∃ x, Commands e probe r j x ∧ events = x.events := by
  rcases perform_split (untold_still.frame e) trivial (untold_still.enter _) hears.ready ran with
    ⟨kept, failed⟩ | ⟨d, a, b, arguments, m, q, v, ha, hb, hm, kept, hv, after, returned⟩
  · exact ⟨[], h.keep kept, .inl rfl, fun content ho => absurd ho (failed content)⟩
  · have executes : Executes e probe r s j arguments m := ⟨d, b, ⟨a, ⟨i, begins, ha⟩, hb⟩, hm⟩
    rcases (h.keep kept).render hears hv with ⟨none, failed⟩ | ⟨x, w, part, hx, among, told, all⟩
    · exact ⟨[], none.keep after, .inl rfl, fun content ho => absurd (returned content ho) failed⟩
    · have commands : Commands e probe r j x := ⟨s, arguments, m, w, executes, hx⟩
      exact ⟨part, told.keep after, .inr ⟨x, commands, among⟩,
        fun content ho => ⟨x, commands, all (returned content ho)⟩⟩

/-- How a run from `j` ends, and what it tells last: that the job is done, if it is, after what was
heard until then. -/
inductive Closing (heard : κ → List Binary64) (tell : ProgressListener κ) (j : Job σ κ)
    (history : List Binary64) : Outcome JobResult → Job σ κ → List Binary64 → Prop
  | done {result : JobResult} {t u k : Job σ κ} (same : result.history = history)
      (state : t.runner.state = .done) (before : heard t.client = heard j.client ++ history)
      (told : (tellProgress (some tell) .one).run t = (.returned (), u))
      (final : k.runner.state = .done) : Closing heard tell j history (.returned result) k [.one]
  /-- The run was refused, its work failed, or it never ends. -/
  | failed {o : Outcome JobResult} {k : Job σ κ} (noResult : ∀ result, o ≠ .returned result)
      (final : k = j ∨ k.runner.state = .error ∨ o = .stalled) : Closing heard tell j history o k []
  /-- The work was done, but telling so came to no good end. -/
  | unheard {o : Outcome JobResult} {p : Outcome Unit} {t k : Job σ κ}
      (noResult : ∀ result, o ≠ .returned result) (state : t.runner.state = .done)
      (before : heard t.client = heard j.client ++ history)
      (told : (tellProgress (some tell) .one).run t = (p, k)) (why : p ≠ .returned ())
      (final : k.runner.state = .done) : Closing heard tell j history o k [.one]

/-- The end of a run whose work is done. -/
theorem complete_closes (hears : Hears heard probe tell) {t : Job σ κ} {content : ByteArray}
    {o : Outcome JobResult} (h : Follows heard (heard j.client) events t)
    (ran : (complete r content (some tell)).run t = (o, k)) :
    heard k.client = heard j.client ++ (t.tracker.history ++ [.one]) ∧
      Closing heard tell j t.tracker.history o k [.one] := by
  have final := (complete_cases ran).1
  obtain ⟨_, i, hi, ran⟩ := Action.bind_total ran ⟨_, _, rfl⟩
  have kept : still heard t i := (untold_still.enter _ _).of_run hi
  have state := (enter_state hi).2
  have before : heard i.client = heard j.client ++ t.tracker.history := by
    rw [(Prod.mk.inj kept).1, h.1]
  have told {p : Outcome Unit} {u : Job σ κ} (hu : (tellProgress (some tell) .one).run i = (p, u)) :
      heard u.client = heard j.client ++ (t.tracker.history ++ [.one]) ∧
        u.tracker = t.tracker := by
    obtain ⟨client, tracker⟩ := hears.tellProgress_run hu
    rw [client, before, List.append_assoc, tracker]
    exact ⟨rfl, (Prod.mk.inj kept).2⟩
  rcases Action.bind_eq ran with ⟨_, u, hu, ran⟩ | ⟨f, hu, rfl⟩ | ⟨hu, rfl⟩
  · obtain ⟨client, tracker⟩ := told hu
    obtain ⟨_, v, hv, ran⟩ := Action.bind_total ran ⟨_, _, rfl⟩
    have noted : still heard u v := (untold_still.host _).of_run hv
    obtain ⟨_, _, hw, ran⟩ := Action.bind_total ran ⟨_, _, rfl⟩
    cases hw
    cases ran
    rw [(Prod.mk.inj noted).1]
    exact ⟨client, .done (congrArg Progress.Tracker.history ((Prod.mk.inj noted).2.trans tracker))
      state before hu final⟩
  · exact ⟨(told hu).1, .unheard nofun state before hu nofun final⟩
  · exact ⟨(told hu).1, .unheard nofun state before hu nofun final⟩

/-- What a client heard of a run from `j` that came to `o` in the state `k`: the values of `history`
while the `events` were dealt with, and then those of `last`. -/
structure Told (heard : κ → List Binary64) (e : Engine σ) (probe : DurationProbe κ)
    (r : JobRequest) (tell : ProgressListener κ) (j : Job σ κ) (o : Outcome JobResult) (k : Job σ κ)
    (events : List EngineEvent) (history last : List Binary64) : Prop where
  values : heard k.client = heard j.client ++ (history ++ last)
  ascends : Progress.Ascends ((history ++ last).map .real)
  /-- Each value of the history is the largest one of zero and the fractions reported so far. -/
  maxima : ∃ fractions, (events.filterMap EngineEvent.report?).mapM
    (fun report => Progress.normalize report.number?) = .ok fractions ∧
      Progress.Maxima fractions history
  among : events = [] ∨ ∃ x, Commands e probe r j x ∧ events <+: x.events
  all : ∀ result, o = .returned result → ∃ x, Commands e probe r j x ∧ events = x.events
  closing : Closing heard tell j history o k last

/-- However a run ends and whatever was before it, a client hears the largest fraction so far after each
report that the engine made among the events of its command that were dealt with. These values ascend
from zero to one. If the run gives a result, all events were dealt with, the values are the history of
the result, and after them it was told that the job is done, as it was then; if the work of the run
fails, nothing more is told. -/
theorem run_tells (hears : Hears heard probe tell) {o : Outcome JobResult}
    (ran : (run e probe r (some tell)).run j = (o, k)) :
    ∃ events history last, Told heard e probe r tell j o k events history last := by
  rcases run_cases e probe r (some tell) j with ⟨f, hf⟩ | ⟨s, i, hi⟩
  · obtain ⟨rfl, rfl⟩ := Prod.mk.inj (hf.symm.trans ran)
    have shows := Progress.Tracker.shows_new
    exact ⟨[], [], [], {
      values := (List.append_nil _).symm
      ascends := shows.sound.ascends_map
      maxima := ⟨[], shows.normal, shows.maxima⟩
      among := .inl rfl
      all := nofun
      closing := .failed nofun (.inl rfl) }⟩
  rw [run_of_begins hi] at ran
  have first : Follows heard (heard j.client) [] i := by
    obtain ⟨_, _, ⟨⟩, begun⟩ := Action.bind_total hi.begun ⟨_, _, rfl⟩
    cases begun
    exact ⟨(List.append_nil _).symm, [], Progress.Tracker.shows_new⟩
  -- a run whose work fails tells nothing after that
  have failed {t : Job σ κ} {p : Outcome ByteArray} (ht : (perform e probe r s (some tell)).run i =
      (p, t)) (kept : still heard t k) (noResult : ∀ result, o ≠ .returned result)
      (final : k = j ∨ k.runner.state = .error ∨ o = .stalled) :
      ∃ events history last, Told heard e probe r tell j o k events history last := by
    obtain ⟨events, told, among, -⟩ := perform_tells hears hi first ht
    obtain ⟨client, fractions, shows⟩ := told.keep kept
    exact ⟨events, k.tracker.history, [], {
      values := by rw [List.append_nil]; exact client
      ascends := by rw [List.append_nil]; exact shows.sound.ascends_map
      maxima := ⟨fractions, shows.normal, shows.maxima⟩
      among
      all := fun result ho => absurd ho (noResult result)
      closing := .failed noResult final }⟩
  rcases Action.attempt_bind_eq ran with ⟨content, t, ht, ran⟩ | ⟨f, t, ht, ran⟩ | ⟨ht, rfl⟩
  · obtain ⟨events, told, among, all⟩ := perform_tells hears hi first ht
    obtain ⟨client, closing⟩ := complete_closes hears told ran
    obtain ⟨-, fractions, shows⟩ := told
    exact ⟨events, t.tracker.history, [.one], {
      values := client
      ascends :=
        (shows.sound.extend Binary64.isFraction_one shows.sound.fraction.atMost_one).ascends_map
      maxima := ⟨fractions, shows.normal, shows.maxima⟩
      among
      all := fun _ _ => all content rfl
      closing }⟩
  · obtain ⟨⟨tail, rfl⟩, state⟩ := fail_reports ran
    exact failed ht ((untold_still.fail _ _).of_run ran) nofun (.inr (.inl state))
  · exact failed ht rfl nofun (.inr (.inr rfl))

/-- A listener whose client keeps the values that it is told. -/
def keepValue : ProgressListener (List Binary64) := fun value =>
  .modify fun c => { c with client := c.client ++ [value] }

/-- The state before a job on an engine in memory that reports its progress three times, among other
events: a half, then a quarter as a percentage, then three quarters. -/
def beforeReports : Job MemoryEngine (List Binary64) where
  host := ((Host.writeFile "clip.mp4" ⟨#[0]⟩).run {}).2
  engine := { executions := [{ steps := [.emits (.progress { ratio := .number (.decimal 5 1) }),
    .emits (.log "frame=1"), .emits (.progress { progress := .number 25 }), .emits (.other .null),
    .emits (.progress { time := .number (.decimal 75 2) })] }] }
  runner := .ofConfig {}
  client := []

/-- The run of the job. -/
def reportingRun : Outcome JobResult × Job MemoryEngine (List Binary64) :=
  (run MemoryEngine.engine (fun _ => pure none) octetClip (some keepValue)).run beforeReports

theorem reportingRun_told :
    reportingRun.2.client.map .real =
      [.decimal 5 1, .decimal 5 1, .decimal 75 2, Number.real .one] ∧
    ∃ events history last, Told id MemoryEngine.engine (fun _ => pure none) octetClip keepValue
      beforeReports reportingRun.1 reportingRun.2 events history last :=
  ⟨by decide +kernel, run_tells ⟨fun _ _ => rfl, fun _ _ => rfl⟩ rfl⟩

end Job

end VideoExport
