import VideoExport.Proofs.Job.Parts
import VideoExport.Proofs.Job.Report

/-!
# The states of a job

The states through which jobs go, one after another on one runner. What happens on the way are `Event`s:
changes of the state, which the log shows, and steps of the engine. `Course e a log events b log'`: the
events come in this order, each change goes from the state to which the one before it led, and each step
of the engine comes in a state that permits it. `Moves e a x b`: what `x` does to a job in the state `a`, up
to `b`. Whatever the engine does, all changes are documented transitions (`JobState.Step`), but for one:
the first job of a runner goes straight to the state of a job that failed if it fails before its files are
staged (`Series.changes_documented`).
-/

set_option autoImplicit false

namespace VideoExport

/-- What an engine may be asked for, and may do, in a state of the job: it executes a command while the
job is rendering, and entries are read while the job reads its output. -/
def JobState.Permits (state : JobState) : EngineAct → Prop
  | .execute _ => state = .rendering
  | .emit _ => state = .rendering
  | .close _ => state = .rendering
  | .finish _ => state = .rendering
  | .read _ => state = .readingOutput
  | _ => True

/-- No job is under way in the state. -/
def JobState.AtRest (state : JobState) : Prop := state = .idle ∨ state = .done ∨ state = .error

theorem JobState.permits_of_prepares (state : JobState) :
    ∀ {act : EngineAct}, act.Prepares → state.Permits act
  | .load, _ => trivial
  | .reset, _ => trivial
  | .write _ _, _ => trivial
  | .delete _, _ => trivial

theorem JobState.name_injective {a b : JobState} (h : a.name.toList = b.name.toList) : a = b := by
  cases a <;> cases b <;> first | rfl | exact absurd h (by decide)

namespace Job

variable {σ κ α β : Type}

/-! ## Changes -/

/-- A change of the state of a job. -/
structure Change where
  id : String
  before : JobState
  after : JobState

namespace Change

/-- What the log shows of a change. -/
def text (c : Change) : String := s!"Job {c.id}: {c.before.name} -> {c.after.name}"

/-- A documented transition, or the failure of a job that did not begin. -/
def Usual (c : Change) : Prop :=
  JobState.Step c.before c.after ∨ c.before = .idle ∧ c.after = .error

theorem Usual.after_ne_idle {c : Change} (h : c.Usual) : c.after ≠ .idle := by
  obtain ⟨id, before, after⟩ := c
  rcases h with h | ⟨-, rfl⟩
  · cases h <;> exact nofun
  · exact nofun

theorem usual_fail (id : String) (before : JobState) : Usual ⟨id, before, .error⟩ := by
  by_cases h : before = .idle
  · exact .inr ⟨h, rfl⟩
  · exact .inl (.fail h)

/-- Texts that are put together with a character are taken apart at its last occurrence. -/
theorem split_last {c : Char} {x x' a a' : List Char} (h : c ∉ a) (h' : c ∉ a')
    (same : x ++ c :: a = x' ++ c :: a') : x = x' ∧ a = a' := by
  rcases List.append_eq_append_iff.1 same with ⟨l, hx, hl⟩ | ⟨l, hx, hl⟩
  · cases l with
    | nil =>
      cases hl
      exact ⟨by simp [hx], rfl⟩
    | cons d l =>
      cases hl
      simp at h
  · cases l with
    | nil =>
      cases hl
      exact ⟨by simp [hx], rfl⟩
    | cons d l =>
      cases hl
      simp at h'

/-- The log tells which change there was. -/
theorem text_injective : Function.Injective text := by
  rintro ⟨id, before, after⟩ ⟨id', before', after'⟩ same
  have unbroken (s : JobState) : ' ' ∉ s.name.toList := by cases s <;> decide
  have shown (id : String) (b a : JobState) : (text ⟨id, b, a⟩).toList =
      ("Job ".toList ++ (id.toList ++ [':'])) ++ ' ' :: b.name.toList ++ [' ', '-', '>'] ++
        ' ' :: a.name.toList := by
    show (("Job " ++ id ++ ": " ++ b.name ++ " -> " ++ a.name : String)).toList = _
    simp
  have texts := congrArg String.toList same
  rw [shown, shown] at texts
  obtain ⟨texts, hafter⟩ := split_last (unbroken _) (unbroken _) texts
  obtain ⟨texts, hbefore⟩ :=
    split_last (unbroken _) (unbroken _) (List.append_cancel_right texts)
  have hid := List.append_cancel_right (List.append_cancel_left texts)
  rw [String.toList_inj.1 hid, JobState.name_injective hbefore, JobState.name_injective hafter]

end Change

/-! ## Events -/

/-- What happens on the way of a job. -/
inductive Event (σ : Type) where
  | changed (c : Change)
  | stepped (c : EngineStep σ)

namespace Event

def change? : Event σ → Option Change
  | .changed c => some c
  | .stepped _ => none

def step? : Event σ → Option (EngineStep σ)
  | .changed _ => none
  | .stepped c => some c

end Event

/-- From the state `a` and a log of states that shows `log`, the events lead to `b` and `log'`. A change
goes from the state as it is, and is shown; a step of the engine finds the log as it is, may leave another
one, and comes only in a state that permits it. -/
inductive Course (e : Engine σ) :
    JobState → List String → List (Event σ) → JobState → List String → Prop
  | nil (a : JobState) (log : List String) : Course e a log [] a log
  | change {a b : JobState} {log log' : List String} {c : Change} {rest : List (Event σ)}
      (before : c.before = a) (later : Course e c.after (log ++ [c.text]) rest b log') :
      Course e a log (.changed c :: rest) b log'
  | step {a b : JobState} {log log' : List String} {c : EngineStep σ} {rest : List (Event σ)}
      (made : Made e c) (before : c.before.host.stateLog = log) (permitted : a.Permits c.act)
      (later : Course e a c.after.host.stateLog rest b log') :
      Course e a log (.stepped c :: rest) b log'

namespace Course

variable {e : Engine σ} {a b c : JobState} {log log' log'' : List String}
  {events events' : List (Event σ)}

theorem append (h : Course e a log events b log') (h' : Course e b log' events' c log'') :
    Course e a log (events ++ events') c log'' := by
  induction h with
  | nil a log => exact h'
  | change before _ ih => exact .change before (ih h')
  | step made before permitted _ ih => exact .step made before permitted (ih h')

/-- Once a job has begun, all usual changes are documented transitions. -/
theorem documented_of_begun (h : Course e a log events b log') (begun : a ≠ .idle)
    (usual : ∀ c ∈ events.filterMap Event.change?, c.Usual) :
    ∀ c ∈ events.filterMap Event.change?, JobState.Step c.before c.after := by
  induction h with
  | nil a log => exact List.forall_mem_nil _
  | change before _ ih =>
    obtain ⟨first, usual⟩ := List.forall_mem_cons.1 usual
    refine List.forall_mem_cons.2 ⟨?_, ih first.after_ne_idle usual⟩
    exact first.resolve_right fun h => begun (before.symm.trans h.1)
  | step _ _ _ _ ih => exact ih begun usual

/-- Usual changes are documented transitions, except that the first may be the failure of a job that did
not begin. -/
theorem documented (h : Course e a log events b log')
    (usual : ∀ c ∈ events.filterMap Event.change?, c.Usual) (i : Nat) (c : Change)
    (hc : (events.filterMap Event.change?)[i]? = some c) :
    JobState.Step c.before c.after ∨ i = 0 ∧ c.before = .idle ∧ c.after = .error := by
  induction h with
  | nil a log => cases hc
  | change before later =>
    obtain ⟨first, usual⟩ := List.forall_mem_cons.1 usual
    cases i with
    | zero =>
      obtain rfl := Option.some.inj hc
      exact first.imp_right fun h => ⟨rfl, h⟩
    | succ i =>
      exact .inl (later.documented_of_begun first.after_ne_idle usual c (List.mem_of_getElem? hc))
  | step _ _ _ _ ih => exact ih usual hc

/-- If the engine is discreet, the log shows the changes and nothing else. -/
theorem log_eq (discreet : e.Discreet) (h : Course e a log events b log') :
    log' = log ++ (events.filterMap Event.change?).map Change.text := by
  induction h with
  | nil a log => exact (List.append_nil log).symm
  | change _ _ ih => exact ih.trans (List.append_assoc _ _ _)
  | step made before _ _ ih => rw [ih, discreet.of_made made, before]; rfl

/-- What the log shows at the next step of an engine, or else at the end. -/
def horizon (steps : List (EngineStep σ)) (log' : List String) : List String :=
  (steps.head?.map fun c => c.before.host.stateLog).getD log'

theorem prefix_horizon (h : Course e a log events b log') :
    log <+: horizon (events.filterMap Event.step?) log' := by
  induction h with
  | nil a log => exact List.prefix_rfl
  | change _ _ ih => exact (List.prefix_append _ _).trans ih
  | step _ before _ _ _ => exact before ▸ List.prefix_rfl

theorem not_prefix_self {text : String} : ¬ log ++ [text] <+: log := by
  intro h
  have := h.length_le
  rw [List.length_append, List.length_singleton] at this
  omega

/-- The steps of the engine and the log tell what happened, and in which order. -/
theorem unique (h : Course e a log events b log') (h' : Course e a log events' c log')
    (steps : events.filterMap Event.step? = events'.filterMap Event.step?) : events = events' := by
  induction h generalizing events' with
  | nil a log =>
    cases h' with
    | nil => rfl
    | change _ later => exact absurd (steps ▸ later.prefix_horizon) not_prefix_self
    | step => cases steps
  | @change _ _ _ _ d rest before later ih =>
    have shown := later.prefix_horizon
    cases h' with
    | nil => exact absurd (steps ▸ shown) not_prefix_self
    | @change _ _ _ _ d' rest' before' later' =>
      have steps : rest.filterMap Event.step? = rest'.filterMap Event.step? := steps
      have texts := (List.prefix_of_prefix_length_le shown (steps ▸ later'.prefix_horizon)
        (by simp)).eq_of_length (by simp)
      obtain rfl := Change.text_injective (List.singleton_inj.1 (List.append_cancel_left texts))
      rw [ih later' steps]
    | @step _ _ _ _ d' rest' _ before' =>
      have steps : rest.filterMap Event.step? = d' :: rest'.filterMap Event.step? := steps
      rw [steps] at shown
      exact absurd (before' ▸ shown) not_prefix_self
  | @step _ _ _ _ d rest made before permitted later ih =>
    cases h' with
    | nil => cases steps
    | @change _ _ _ _ d' rest' _ later' =>
      have steps : d :: rest.filterMap Event.step? = rest'.filterMap Event.step? := steps
      have shown := later'.prefix_horizon
      rw [← steps] at shown
      exact absurd (before ▸ shown) not_prefix_self
    | @step _ _ _ _ d' rest' _ _ _ later' =>
      have steps : d :: rest.filterMap Event.step? = d' :: rest'.filterMap Event.step? := steps
      obtain ⟨rfl, remaining⟩ := List.cons.inj steps
      rw [ih later' remaining]

end Course

/-- From `j` to `k` the events happen, and the engine makes no steps but those among them. -/
structure Passes (e : Engine σ) (events : List (Event σ)) (j k : Job (Recorded σ) κ) : Prop where
  course : Course e j.runner.state j.host.stateLog events k.runner.state k.host.stateLog
  steps : k.engine.steps = j.engine.steps ++ events.filterMap Event.step?

namespace Passes

variable {e : Engine σ} {j k l : Job (Recorded σ) κ} {events events' : List (Event σ)}

theorem append (h : Passes e events j k) (h' : Passes e events' k l) :
    Passes e (events ++ events') j l where
  course := h.course.append h'.course
  steps := by rw [h'.steps, h.steps, List.filterMap_append, List.append_assoc]

/-- Nothing is shown, and the engine makes no step. -/
theorem of_still (log : k.host.stateLog = j.host.stateLog)
    (state : k.runner.state = j.runner.state) (steps : k.engine.steps = j.engine.steps) :
    Passes e [] j k where
  course := by
    rw [log, state]
    exact .nil _ _
  steps := by rw [steps, List.filterMap_nil, List.append_nil]

theorem enter {id : String} {state : JobState} {o : Outcome Unit}
    (h : (Job.enter id state).run j = (o, k)) :
    Passes e [.changed ⟨id, j.runner.state, state⟩] j k := by
  cases h
  refine ⟨.change rfl ?_, (List.append_nil _).symm⟩
  have shown : (j.host.journal ++ [Journal.Entry.record ⟨.debug, .part logSource,
      (Change.mk id j.runner.state state).text⟩]).filterMap Journal.Entry.stateMessage? =
      j.host.stateLog ++ [(Change.mk id j.runner.state state).text] := List.filterMap_append
  exact shown ▸ .nil _ _

/-- What is kept of a job and its engine tells what happened on the way. -/
theorem unique (h : Passes e events j k) (h' : Passes e events' j k) : events = events' :=
  h.course.unique h'.course (List.append_cancel_left (h.steps.symm.trans h'.steps))

end Passes

/-! ## Parts that leave the state as it is -/

/-- Nothing is shown but what the engine itself does to the log, which makes only steps whose acts have
`P`. -/
def unshown (e : Engine σ) (P : EngineAct → Prop) : Evolution (World (Recorded σ)) where
  Holds w w' := ∃ new, w'.engine.steps = w.engine.steps ++ new ∧
    ∀ a : JobState, (∀ act, P act → a.Permits act) →
      Course e a w.host.stateLog (new.map .stepped) a w'.host.stateLog
  refl w := ⟨[], (List.append_nil _).symm, fun a _ => .nil a _⟩
  trans := by
    rintro w w' w'' ⟨new, steps, h⟩ ⟨new', steps', h'⟩
    refine ⟨new ++ new', ?_, fun a permitted => ?_⟩
    · rw [steps', steps, List.append_assoc]
    · rw [List.map_append]
      exact (h a permitted).append (h' a permitted)

/-- The state of a job stays as it is, and nothing is shown but what the engine does to the log. -/
def staying (e : Engine σ) (P : EngineAct → Prop) : Evolution (Job (Recorded σ) κ) :=
  ((unshown e P).on (·.toWorld)).and (.same fun j => j.runner.state)

section
variable {P : EngineAct → Prop} {e : Engine σ}

theorem unshown_recordStep {w : World (Recorded σ)} {act : EngineAct} {result : Outcome Unit}
    {v : World σ} (hp : P act) (made : Made e ⟨act, w.bare, result, v⟩) :
    unshown e P w (w.recordStep act result v) :=
  ⟨_, rfl, fun a permitted => .step made rfl (permitted act hp) (.nil a _)⟩

theorem unshown_host (w : World (Recorded σ)) (h : Host) (quiet : Host.discreetly w.host h) :
    unshown e P w { w with host := h } :=
  ⟨[], (List.append_nil _).symm, fun a _ =>
    (show h.stateLog = w.host.stateLog from quiet) ▸ .nil a h.stateLog⟩

theorem unshown_recorded : e.recorded.Follows P (unshown e P) where
  load hp w := unshown_recordStep hp (.load w.bare)
  reset hp w := unshown_recordStep hp (.reset w.bare)
  write hp w := unshown_recordStep hp (.write _ _ w.bare)
  read hp w := unshown_recordStep hp (.read _ w.bare)
  delete hp w := unshown_recordStep hp (.delete _ w.bare)
  execute hp := .bind (fun w => unshown_recordStep hp (.execute _ w.bare)) fun _ => .pure _
  started ran hp := by
    obtain ⟨y, started, rfl⟩ := execute_recorded_eq ran
    refine ⟨fun m hm w => ?_, fun m hm w => ?_, fun w => ?_⟩
    · obtain ⟨n, hn, rfl⟩ := List.mem_map.1 hm
      exact unshown_recordStep (hp _ (.inl rfl)) (.emit started hn w.bare)
    · obtain ⟨n, hn, rfl⟩ := List.mem_map.1 hm
      exact unshown_recordStep (hp _ (.inr (.inl rfl))) (.close started hn w.bare)
    · exact unshown_recordStep (hp _ (.inr (.inr rfl))) (.finish started w.bare)

theorem staying_frame (prepares : ∀ act, act.Prepares → P act) :
    Frame e.recorded P (unshown e P) (staying (κ := κ) e P) where
  engine := unshown_recorded
  prepares := prepares
  host := unshown_host
  storage _ _ h := ⟨h, rfl⟩
  aside j _ state _ := ⟨(unshown e P).refl j.toWorld, state⟩

end

/-- Those who take part in a job besides its engine leave no record under its name. -/
structure Discreet (probe : DurationProbe κ) (listener : Option (ProgressListener κ)) : Prop where
  probe : ∀ path, (probe path).Follows (Host.discreetly.on Caller.host)
  listener : ∀ tell, listener = some tell → ∀ value,
    (tell value).Follows (Host.discreetly.on Caller.host)

section
variable {P : EngineAct → Prop} {e : Engine σ} {probe : DurationProbe κ} {r : JobRequest}
  {s : Settings} {listener : Option (ProgressListener κ)}

theorem staying_caller {x : Action (Caller κ) α} (h : x.Follows (Host.discreetly.on Caller.host)) :
    (liftM x : Action (Job (Recorded σ) κ) α).Follows (staying e P) :=
  .zoom h fun j _ quiet => ⟨unshown_host j.toWorld _ quiet, rfl⟩

/-- What the runner keeps besides the state is not shown. -/
theorem staying_aside {f : Job (Recorded σ) κ → Job (Recorded σ) κ}
    (world : ∀ j, (f j).toWorld = j.toWorld) (state : ∀ j, (f j).runner.state = j.runner.state) :
    (Action.modify f).Follows (staying e P) := by
  refine .modify fun j => ⟨?_, state j⟩
  show unshown e P j.toWorld (f j).toWorld
  rw [world]
  exact (unshown e P).refl _

theorem Discreet.tellProgress (company : Discreet probe listener) (value : Binary64) :
    (tellProgress listener value : Action (Job (Recorded σ) κ) Unit).Follows (staying e P) := by
  cases hl : listener with
  | none => exact .pure _
  | some tell => exact staying_caller (company.listener tell hl value)

theorem Discreet.ready (company : Discreet probe listener) :
    (ready e.recorded probe r s : Action (Job (Recorded σ) κ) Number).Follows
      (staying e EngineAct.Prepares) :=
  (staying_frame fun _ h => h).ready fun _ => staying_caller (company.probe _)

theorem Discreet.handle (company : Discreet probe listener) (id : String) (event : EngineEvent) :
    (handle id listener event : Action (Job (Recorded σ) κ) Deadline.Demand).Follows
      (staying e P) := by
  cases event with
  | log message =>
    have other : s!"FFmpeg.{id}" ≠ logSource := by
      intro h
      have letters := congrArg (fun s : String => s.toList.head?) h
      simp [logSource] at letters
      simp +decide at letters
    have shown : (Host.log .debug s!"FFmpeg.{id}" message).Follows Host.discreetly :=
      Host.discreet_log _ (.inr other)
    exact .bind (.read _) fun _ => .bind (staying_aside (fun _ => rfl) fun _ => rfl) fun _ =>
      .bind (.zoom shown fun j _ quiet => ⟨unshown_host j.toWorld _ quiet, rfl⟩) fun _ => .pure _
  | progress report =>
    exact .bind (.read _) fun _ => .bind (.ofNumeric _) fun _ =>
      .bind (staying_aside (fun _ => rfl) fun _ => rfl) fun _ =>
        .bind (company.tellProgress _) fun _ => .pure _
  | other _ => exact .pure _

theorem Discreet.render (company : Discreet probe listener) (id : String)
    (arguments : List String) :
    (render e.recorded id arguments listener : Action (Job (Recorded σ) κ) Unit).Follows
      (staying e JobState.rendering.Permits) := by
  have frame := staying_frame (κ := κ) (e := e) fun _ => JobState.rendering.permits_of_prepares
  refine .bind (.read _) fun _ => frame.distrusting (Deadline.follows_relay _ _ (frame.start rfl)
    (fun _ _ _ h => frame.started (fun act ha => ?_) h) (company.handle id))
  rcases ha with rfl | rfl | rfl <;> rfl

end

/-! ## Parts that change it -/

/-- The changes that happen are usual. -/
def usually (e : Engine σ) : Evolution (Job (Recorded σ) κ) where
  Holds j k := ∃ events, Passes e events j k ∧ ∀ c ∈ events.filterMap Event.change?, c.Usual
  refl j := ⟨[], .of_still rfl rfl rfl, List.forall_mem_nil _⟩
  trans := by
    rintro i j k ⟨events, passes, usual⟩ ⟨events', passes', usual'⟩
    refine ⟨events ++ events', passes.append passes', ?_⟩
    rw [List.filterMap_append]
    exact List.forall_mem_append.2 ⟨usual, usual'⟩

/-- Parts that leave the state as it is, while the engine makes steps that the state permits. -/
theorem usually_of_staying {e : Engine σ} {P : EngineAct → Prop} {j k : Job (Recorded σ) κ}
    (h : staying e P j k) (permitted : ∀ act, P act → j.runner.state.Permits act) :
    usually e j k := by
  obtain ⟨⟨new, steps, course⟩, state⟩ := h
  have state : k.runner.state = j.runner.state := state
  refine ⟨new.map .stepped, ⟨?_, ?_⟩, ?_⟩
  · rw [state]
    exact course _ permitted
  · rw [steps, List.filterMap_map, show Event.step? ∘ Event.stepped = some from rfl,
      List.filterMap_some]
  · rw [List.filterMap_map, show Event.change? ∘ Event.stepped = fun _ : EngineStep σ => none from rfl,
      List.filterMap_none]
    exact List.forall_mem_nil _

/-- What happens to a job in the state `a` while `x` runs are usual changes; if `x` returns, it leaves the
job in the state `b`. -/
def Moves (e : Engine σ) (a : JobState) (x : Action (Job (Recorded σ) κ) α) (b : JobState) : Prop :=
  ∀ (j k : Job (Recorded σ) κ) (o : Outcome α), j.runner.state = a → x.run j = (o, k) →
    usually e j k ∧ ∀ v, o = .returned v → k.runner.state = b

namespace Moves

variable {e : Engine σ} {a b c : JobState} {P : EngineAct → Prop}
  {x : Action (Job (Recorded σ) κ) α}

theorem of_staying (h : x.Follows (staying e P)) (permitted : ∀ act, P act → a.Permits act) :
    Moves e a x a := by
  intro j k o ha ran
  have stayed := h.of_run ran
  exact ⟨usually_of_staying stayed (ha ▸ permitted), fun _ _ => Eq.trans stayed.2 ha⟩

/-- What makes the engine ready, or brings entries into working storage or out of it, may come in any
state. -/
theorem prepared (h : x.Follows (staying e EngineAct.Prepares)) : Moves e a x a :=
  .of_staying h fun _ => a.permits_of_prepares

theorem enter {id : String} (usual : Change.Usual ⟨id, a, b⟩) :
    Moves e a (Job.enter id b : Action (Job (Recorded σ) κ) Unit) b := by
  intro j k o ha ran
  refine ⟨⟨_, .enter ran, List.forall_mem_singleton.2 (ha ▸ usual)⟩, fun _ _ => ?_⟩
  exact (enter_state ran).2

theorem bind {k : α → Action (Job (Recorded σ) κ) β} (hx : Moves e a x b)
    (hk : ∀ v, Moves e b (k v) c) : Moves e a (x >>= k) c := by
  intro i l o ha ran
  rcases Action.bind_eq ran with ⟨v, t, ht, ran⟩ | ⟨f, ht, rfl⟩ | ⟨ht, rfl⟩
  · obtain ⟨passed, state⟩ := hx _ _ _ ha ht
    obtain ⟨passed', state'⟩ := hk v _ _ _ (state v rfl) ran
    exact ⟨(usually e).trans passed passed', state'⟩
  · exact ⟨(hx _ _ _ ha ht).1, nofun⟩
  · exact ⟨(hx _ _ _ ha ht).1, nofun⟩

/-- What comes last, in whichever state, leaves the state as it is. -/
theorem ensuring {last : Action (Job (Recorded σ) κ) Unit} (hx : Moves e a x b)
    (hl : last.Follows (staying e EngineAct.Prepares)) : Moves e a (x.ensuring last) b := by
  intro i l o ha ran
  obtain ⟨p, t, ht, after, returned⟩ := Action.ensuring_split hl ran
  obtain ⟨passed, state⟩ := hx _ _ _ ha ht
  have rest := usually_of_staying after fun _ => t.runner.state.permits_of_prepares
  exact ⟨(usually e).trans passed rest, fun v ho => Eq.trans after.2 (state v (returned v ho))⟩

end Moves

/-! ## Runs -/

section
variable {e : Engine σ} {probe : DurationProbe κ} {r : JobRequest} {s : Settings}
  {listener : Option (ProgressListener κ)} {a : JobState}

/-- The work of a run goes from rest through the stages of a job, as far as it comes. -/
theorem Discreet.perform (company : Discreet probe listener) (rest : a.AtRest) :
    Moves e a (perform e.recorded probe r s listener : Action (Job (Recorded σ) κ) ByteArray)
      .readingOutput := by
  have frame := staying_frame (κ := κ) (e := e) fun _ h => h
  have reading := staying_frame (κ := κ) (e := e) fun _ =>
    JobState.readingOutput.permits_of_prepares
  have transcoded (d : Number) : Moves e .staging (transcode e.recorded r s (imageOf r s)
      (namesOf r s) d listener : Action (Job (Recorded σ) κ) ByteArray) .readingOutput :=
    .bind (.prepared (frame.stageFiles _ _ _)) fun _ => .bind (.enter (.inl .render)) fun _ =>
      .bind (.of_staying (company.render _ _) fun _ => id) fun _ =>
      .bind (.enter (.inl .read)) fun _ => .of_staying (reading.collect rfl) fun _ => id
  exact .bind (.prepared company.ready) fun _ => .bind (.prepared frame.prepareFont) fun _ =>
    .bind (.enter (.inl (.start rest))) fun _ => .bind (.prepared frame.unclaim) fun _ =>
      .ensuring (.bind (.prepared (frame.claimNames _)) fun _ => transcoded _) frame.release

theorem moves_begin (a : JobState) :
    Moves e a (begin r : Action (Job (Recorded σ) κ) Unit) a := by
  have frame := staying_frame (κ := κ) (e := e) fun _ h => h
  exact .prepared (.bind (staying_aside (fun _ => rfl) fun _ => rfl) fun _ =>
    frame.note (by decide) _)

/-- A job may fail in any state. -/
theorem moves_fail (a : JobState) (cause : Failure) :
    Moves e a (fail r.id cause : Action (Job (Recorded σ) κ) JobResult) .error := by
  have frame := staying_frame (κ := κ) (e := e) fun _ h => h
  exact .bind (.enter (Change.usual_fail _ a)) fun _ => .prepared <| .bind (.read _) fun _ =>
    .bind (.read _) fun _ => .bind (frame.note (by decide) _) fun _ =>
      .ite (.bind (frame.note (by decide) _) fun _ => .raise _) (.raise _)

theorem Discreet.complete (company : Discreet probe listener) (content : ByteArray) :
    Moves e .readingOutput
      (complete r content listener : Action (Job (Recorded σ) κ) JobResult) .done := by
  have frame := staying_frame (κ := κ) (e := e) fun _ h => h
  exact .bind (.enter (.inl .finish)) fun _ => .prepared <| .bind (company.tellProgress _) fun _ =>
    .bind (frame.note (by decide) _) fun _ => .bind (.read _) fun _ => .pure _

/-- However a run ends that starts from rest, its changes are usual. If it ends, it leaves its runner at
rest. -/
theorem Discreet.run (company : Discreet probe listener) {j k : Job (Recorded σ) κ}
    {o : Outcome JobResult} (rest : j.runner.state.AtRest)
    (ran : (run e.recorded probe r listener).run j = (o, k)) :
    usually e j k ∧ (o ≠ .stalled → k.runner.state.AtRest) := by
  rcases run_cases e.recorded probe r listener j with ⟨f, hf⟩ | ⟨s, i, hi⟩
  · obtain ⟨rfl, rfl⟩ := Prod.mk.inj (hf.symm.trans ran)
    exact ⟨(usually e).refl j, fun _ => rest⟩
  rw [run_of_begins hi] at ran
  obtain ⟨begun, state⟩ := moves_begin (e := e) _ _ _ _ rfl hi.begun
  have worked {p : Outcome ByteArray} {t : Job (Recorded σ) κ}
      (ht : (Job.perform e.recorded probe r s listener).run i = (p, t)) :=
    company.perform (by rwa [state _ rfl]) _ _ _ rfl ht
  rcases Action.attempt_bind_eq ran with ⟨content, t, ht, ran⟩ | ⟨f, t, ht, ran⟩ | ⟨ht, rfl⟩
  · obtain ⟨passed, state⟩ := worked ht
    have closed := (company.complete (e := e) content _ _ _ (state _ rfl) ran).1
    exact ⟨(usually e).trans begun ((usually e).trans passed closed),
      fun _ => .inr (.inl (complete_cases ran).1)⟩
  · have failed := (moves_fail (e := e) _ f _ _ _ rfl ran).1
    exact ⟨(usually e).trans begun ((usually e).trans (worked ht).1 failed),
      fun _ => .inr (.inr (fail_reports ran).2)⟩
  · exact ⟨(usually e).trans begun (worked ht).1, fun h => absurd rfl h⟩

end

/-! ## Runs one after another -/

/-- Runs one after another on one runner and one engine, of which the last ended so. While no job runs,
the engine is not asked for anything, and the log shows no change of a state. -/
inductive Series (e : Engine σ) (j : Job (Recorded σ) κ) : Outcome Unit → Job (Recorded σ) κ → Prop
  | start : Series e j (.returned ()) j
  /-- Time passes after a run. -/
  | pause {o : Outcome Unit} {k l : Job (Recorded σ) κ} (before : Series e j o k)
      (steps : l.engine.steps = k.engine.steps) (runner : l.runner = k.runner)
      (log : Host.discreetly k.host l.host) : Series e j o l
  /-- A job runs, after the one before it has come to its end. -/
  | run {p : Outcome Unit} {k l : Job (Recorded σ) κ} {probe : DurationProbe κ} {r : JobRequest}
      {listener : Option (ProgressListener κ)} {o : Outcome JobResult} (before : Series e j p k)
      (ended : p ≠ .stalled) (company : Discreet probe listener)
      (ran : (Job.run e.recorded probe r listener).run k = (o, l)) : Series e j o.end l

namespace Series

variable {e : Engine σ} {j k : Job (Recorded σ) κ} {p : Outcome Unit}

theorem usually (rest : j.runner.state.AtRest) (series : Series e j p k) :
    Job.usually e j k ∧ (p ≠ .stalled → k.runner.state.AtRest) := by
  induction series with
  | start => exact ⟨(Job.usually e).refl j, fun _ => rest⟩
  | pause before steps runner log ih =>
    have still := Passes.of_still (e := e) log (congrArg Runner.state runner) steps
    exact ⟨(Job.usually e).trans ih.1 ⟨_, still, List.forall_mem_nil _⟩, fun h => runner ▸ ih.2 h⟩
  | run before ended company ran ih =>
    obtain ⟨passed, rests⟩ := company.run (ih.2 ended) ran
    exact ⟨(Job.usually e).trans ih.1 passed, fun h => rests fun stalled => h (stalled ▸ rfl)⟩

/-- The log of runs on a new runner with a discreet engine shows documented transitions and nothing else,
but for the failure of a first job that did not come to staging its files. -/
theorem log_documented (discreet : e.Discreet) (new : j.runner.state = .idle)
    (series : Series e j p k) :
    ∃ changes : List Change, k.host.stateLog = j.host.stateLog ++ changes.map Change.text ∧
      ∀ i c, changes[i]? = some c →
        JobState.Step c.before c.after ∨ i = 0 ∧ c.before = .idle ∧ c.after = .error := by
  obtain ⟨_, passes, usual⟩ := (series.usually (.inl new)).1
  exact ⟨_, passes.course.log_eq discreet, passes.course.documented usual⟩

/-- Whatever the engine does: each change of a job's state in runs on a new runner is a documented
transition, unless it is the very first one, which may be the failure of a job that did not come to staging
its files. Commands are executed only while a job is rendering, and entries are read only while it reads
its output. -/
theorem changes_documented (new : j.runner.state = .idle) (series : Series e j p k) :
    ∃ events, Passes e events j k ∧ ∀ i c, (events.filterMap Event.change?)[i]? = some c →
      JobState.Step c.before c.after ∨ i = 0 ∧ c.before = .idle ∧ c.after = .error := by
  obtain ⟨events, passes, usual⟩ := (series.usually (.inl new)).1
  exact ⟨events, passes, passes.course.documented usual⟩

end Series

/-- The state before jobs on a new runner and an engine in memory that executes one command and fails at
the next. -/
def beforeSeries : Job (Recorded MemoryEngine) Unit where
  host := ((Host.writeFile "clip.mp4" ⟨#[0]⟩).run {}).2
  engine := ⟨{ executions := [{}, { steps := [.raises (.raised .runtime "no codec")] }] }, []⟩
  runner := .ofConfig {}
  client := ()

/-- The run of a job in memory, without a probe or anyone to be told of its progress. -/
def memoryRun (j : Job (Recorded MemoryEngine) Unit) :
    Outcome JobResult × Job (Recorded MemoryEngine) Unit :=
  (run MemoryEngine.engine.recorded (fun _ => pure none) octetClip none).run j

theorem discreet_alone : Discreet (κ := Unit) (fun _ => pure none) none where
  probe _ := .pure _
  listener := nofun

theorem Series.memory {j k : Job (Recorded MemoryEngine) Unit} {p : Outcome Unit}
    (before : Series MemoryEngine.engine j p k) (ended : p ≠ .stalled) :
    Series MemoryEngine.engine j (memoryRun k).1.end (memoryRun k).2 :=
  .run (r := octetClip) before ended discreet_alone rfl

/-- After a job that is done comes one that fails while it renders. -/
theorem doneThenFailed_documented :
    (memoryRun (memoryRun beforeSeries).2).2.host.stateLog =
      ["Job a: idle -> staging", "Job a: staging -> rendering", "Job a: rendering -> reading-output",
        "Job a: reading-output -> done", "Job a: done -> staging", "Job a: staging -> rendering",
        "Job a: rendering -> error"] ∧
    ∃ events, Passes MemoryEngine.engine events beforeSeries (memoryRun (memoryRun beforeSeries).2).2 ∧
      ∀ i c, (events.filterMap Event.change?)[i]? = some c →
        JobState.Step c.before c.after ∨ i = 0 ∧ c.before = .idle ∧ c.after = .error := by
  have done : (memoryRun beforeSeries).1.end ≠ .stalled := Outcome.ne_stalled (by decide +kernel)
  exact ⟨by decide +kernel,
    Series.changes_documented rfl ((Series.start.memory nofun).memory done)⟩

/-- The state before a job on a new runner whose engine cannot be loaded. -/
def beforeNoEngine : Job (Recorded MemoryEngine) Unit where
  host := ((Host.writeFile "clip.mp4" ⟨#[0]⟩).run {}).2
  engine := ⟨{ loads := [.raises (.raised .runtime "no engine")] }, []⟩
  runner := .ofConfig {}
  client := ()

/-- The first job of a runner goes straight to the state of a job that failed, if the engine cannot be
loaded. -/
theorem noEngine_unbegun :
    Series MemoryEngine.engine beforeNoEngine (memoryRun beforeNoEngine).1.end
      (memoryRun beforeNoEngine).2 ∧
    beforeNoEngine.runner.state = .idle ∧ beforeNoEngine.host.stateLog = [] ∧
    (memoryRun beforeNoEngine).2.host.stateLog = [Change.text ⟨"a", .idle, .error⟩] ∧
    ¬ JobState.Step .idle .error := by
  refine ⟨Series.start.memory nofun, rfl, rfl, by decide +kernel, fun h => ?_⟩
  cases h with
  | fail begun => exact begun rfl

end Job

end VideoExport
