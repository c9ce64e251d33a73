import VideoExport.Engine.Basic
import VideoExport.Proofs.Evolution

/-!
# Recording an engine

`e.recorded` is the engine `e` with a record of its steps: every operation that is asked of it, and
every event and end of an execution, with the worlds before and after it and how it ended.
`Linked e S w steps w'`: the steps, each one made by `e`, lead from the world `w` to `w'`, and between
them only the host changes, within `S`. `Span e S w new w'` says so of the recorded engine: `new` is
what the record of `w'` has more than that of `w`. Claims about the order of calls are claims about
the record; claims about working storage follow from the record and from what single steps do.
-/

set_option autoImplicit false

namespace VideoExport

/-! ## Steps -/

/-- What an engine is asked for, or does while it executes a command. -/
inductive EngineAct where
  | load
  | reset
  | write (name : String) (content : ByteArray)
  | read (name : String)
  | delete (name : String)
  | execute (arguments : List String)
  /-- An event of the execution of a command is about to be handed over. -/
  | emit (arguments : List String)
  /-- The execution is closed before its end. -/
  | close (arguments : List String)
  /-- The execution comes to its end. -/
  | finish (arguments : List String)

namespace EngineAct

/-- The entries that an act may change. -/
def Touches : EngineAct → String → Prop
  | .load, _ => False
  | .reset, _ => True
  | .write name _, n => n = name
  | .read _, _ => False
  | .delete name, n => n = name
  | .execute arguments, n => arguments.getLast? = some n
  | .emit arguments, n => arguments.getLast? = some n
  | .close arguments, n => arguments.getLast? = some n
  | .finish arguments, n => arguments.getLast? = some n

/-- An act of the execution of a command that was started. -/
def IsOf (arguments : List String) (act : EngineAct) : Prop :=
  act = .emit arguments ∨ act = .close arguments ∨ act = .finish arguments

/-- An execution touches the entry that its last argument names. -/
theorem IsOf.touches {arguments : List String} {act : EngineAct} {n : String}
    (h : act.IsOf arguments) : act.Touches n ↔ arguments.getLast? = some n := by
  rcases h with rfl | rfl | rfl <;> rfl

end EngineAct

/-- How something ended, without its value. -/
def Outcome.end {α : Type} : Outcome α → Outcome Unit
  | .returned _ => .returned ()
  | .raised f => .raised f
  | .stalled => .stalled

@[simp] theorem Outcome.end_unit (o : Outcome Unit) : o.end = o := by
  cases o <;> rfl

/-- A step of an engine. -/
structure EngineStep (σ : Type) where
  act : EngineAct
  before : World σ
  result : Outcome Unit
  after : World σ

/-- An engine's state with a record of its steps. -/
structure Recorded (σ : Type) where
  engine : σ
  steps : List (EngineStep σ) := []

variable {σ : Type}

/-- A world without the record. -/
def World.bare (w : World (Recorded σ)) : World σ := ⟨w.host, w.engine.engine⟩

/-- A world with one more step in its record, after which the bare world is `v`. -/
def World.recordStep (w : World (Recorded σ)) (act : EngineAct) (result : Outcome Unit)
    (v : World σ) : World (Recorded σ) :=
  ⟨v.host, ⟨v.engine, w.engine.steps ++ [⟨act, w.bare, result, v⟩]⟩⟩

/-- An operation that keeps a record of itself. -/
def Action.recorded {α : Type} (act : EngineAct) (x : Action (World σ) α) :
    Action (World (Recorded σ)) α := fun w =>
  ((x.run w.bare).1, w.recordStep act (x.run w.bare).1.end (x.run w.bare).2)

/-- An execution that keeps a record of its events and its end. -/
def Execution.recorded (arguments : List String) (x : Execution (World σ) EngineEvent) :
    Execution (World (Recorded σ)) EngineEvent where
  emissions := x.emissions.map fun m => {
    before := fun w => w.recordStep (.emit arguments) (.returned ()) (m.before w.bare)
    event := m.event
    close := fun w => w.recordStep (.close arguments) (.returned ()) (m.close w.bare) }
  finish := .recorded (.finish arguments) x.finish

/-- The engine with a record of its steps. -/
def Engine.recorded (e : Engine σ) : Engine (Recorded σ) where
  isLoaded s := e.isLoaded s.engine
  load := .recorded .load e.load
  write name content := .recorded (.write name content) (e.write name content)
  read name := .recorded (.read name) (e.read name)
  delete name := .recorded (.delete name) (e.delete name)
  execute arguments := do
    return (← Action.recorded (.execute arguments) (e.execute arguments)).recorded arguments
  reset := .recorded .reset e.reset

/-- An engine executes a command so. -/
def Engine.Starts (e : Engine σ) (arguments : List String)
    (x : Execution (World σ) EngineEvent) : Prop :=
  ∃ w w', (e.execute arguments).run w = (.returned x, w')

/-- The steps that an engine can make. -/
inductive Made (e : Engine σ) : EngineStep σ → Prop
  | load (w : World σ) : Made e ⟨.load, w, (e.load.run w).1.end, (e.load.run w).2⟩
  | reset (w : World σ) : Made e ⟨.reset, w, (e.reset.run w).1.end, (e.reset.run w).2⟩
  | write (name : String) (content : ByteArray) (w : World σ) :
      Made e ⟨.write name content, w, ((e.write name content).run w).1.end,
        ((e.write name content).run w).2⟩
  | read (name : String) (w : World σ) :
      Made e ⟨.read name, w, ((e.read name).run w).1.end, ((e.read name).run w).2⟩
  | delete (name : String) (w : World σ) :
      Made e ⟨.delete name, w, ((e.delete name).run w).1.end, ((e.delete name).run w).2⟩
  | execute (arguments : List String) (w : World σ) :
      Made e ⟨.execute arguments, w, ((e.execute arguments).run w).1.end,
        ((e.execute arguments).run w).2⟩
  | emit {arguments : List String} {x : Execution (World σ) EngineEvent}
      {m : Emission (World σ) EngineEvent} (started : e.Starts arguments x)
      (mem : m ∈ x.emissions) (w : World σ) :
      Made e ⟨.emit arguments, w, .returned (), m.before w⟩
  | close {arguments : List String} {x : Execution (World σ) EngineEvent}
      {m : Emission (World σ) EngineEvent} (started : e.Starts arguments x)
      (mem : m ∈ x.emissions) (w : World σ) :
      Made e ⟨.close arguments, w, .returned (), m.close w⟩
  | finish {arguments : List String} {x : Execution (World σ) EngineEvent}
      (started : e.Starts arguments x) (w : World σ) :
      Made e ⟨.finish arguments, w, (x.finish.run w).1.end, (x.finish.run w).2⟩

/-! ## From world to world -/

/-- Changes of a host that leave something alone, which no change does that keeps all files. -/
structure HostFrame extends Evolution Host where
  of_files : ∀ {h h' : Host}, h'.files = h.files → Holds h h'

/-- Any change of a host. -/
def HostFrame.any : HostFrame where
  Holds _ _ := True
  refl _ := trivial
  trans _ _ := trivial
  of_files _ := trivial

/-- Steps of `e` that lead from one world to another. -/
inductive Linked (e : Engine σ) (S : HostFrame) : World σ → List (EngineStep σ) → World σ → Prop
  | nil {w w' : World σ} : w'.engine = w.engine → S.toEvolution w.host w'.host → Linked e S w [] w'
  | cons {w w' : World σ} {c : EngineStep σ} {rest : List (EngineStep σ)} :
      c.before.engine = w.engine → S.toEvolution w.host c.before.host → Made e c →
      Linked e S c.after rest w' → Linked e S w (c :: rest) w'

namespace Linked

variable {e : Engine σ} {S : HostFrame} {w w' w'' : World σ} {a b : List (EngineStep σ)}

theorem after_host (hs : w'.engine = w.engine) (hh : S.toEvolution w.host w'.host)
    (h : Linked e S w' a w'') : Linked e S w a w'' := by
  cases h with
  | nil h₁ h₂ => exact .nil (h₁.trans hs) (S.trans hh h₂)
  | cons h₁ h₂ hm hl => exact .cons (h₁.trans hs) (S.trans hh h₂) hm hl

theorem append (h : Linked e S w a w') (h' : Linked e S w' b w'') : Linked e S w (a ++ b) w'' := by
  induction h with
  | nil h₁ h₂ => exact h'.after_host h₁ h₂
  | cons h₁ h₂ hm _ ih => exact .cons h₁ h₂ hm (ih h')

theorem made (h : Linked e S w a w') : ∀ c ∈ a, Made e c := by
  induction h with
  | nil _ _ => exact fun _ hc => absurd hc List.not_mem_nil
  | cons _ _ hm _ ih =>
    intro c hc
    rcases List.mem_cons.1 hc with rfl | hc
    · exact hm
    · exact ih c hc

/-- A path through a list of steps is a path through its first part and then through the rest. -/
theorem split : ∀ {a b : List (EngineStep σ)} {w w'' : World σ}, Linked e S w (a ++ b) w'' →
    ∃ w', Linked e S w a w' ∧ Linked e S w' b w''
  | [], _, w, _, h => ⟨w, .nil rfl (S.refl _), h⟩
  | _ :: _, _, _, _, .cons h₁ h₂ hm h => by
    obtain ⟨w', ha, hb⟩ := split h
    exact ⟨w', .cons h₁ h₂ hm ha, hb⟩

/-- What the host leaves alone and every step keeps is kept from the first world to the last. -/
theorem invariant {P : World σ → Prop} (h : Linked e S w a w')
    (host : ∀ w w' : World σ, w'.engine = w.engine → S.toEvolution w.host w'.host → P w → P w')
    (step : ∀ c ∈ a, Made e c → P c.before → P c.after) (hw : P w) : P w' := by
  induction h with
  | nil h₁ h₂ => exact host _ _ h₁ h₂ hw
  | cons h₁ h₂ hm _ ih =>
    exact ih (fun c hc => step c (.tail _ hc)) (step _ (.head _) hm (host _ _ h₁ h₂ hw))

end Linked

/-- The record of `w'` continues that of `w` by `new`, which leads from the one to the other. -/
structure Span (e : Engine σ) (S : HostFrame) (w : World (Recorded σ)) (new : List (EngineStep σ))
    (w' : World (Recorded σ)) : Prop where
  steps : w'.engine.steps = w.engine.steps ++ new
  linked : Linked e S w.bare new w'.bare

namespace Span

variable {e : Engine σ} {S : HostFrame} {w w' w'' : World (Recorded σ)}
  {a b : List (EngineStep σ)}

theorem of_host (he : w'.engine = w.engine) (hh : S.toEvolution w.host w'.host) :
    Span e S w [] w' where
  steps := by rw [he, List.append_nil]
  linked := .nil (congrArg Recorded.engine he) hh

theorem refl (w : World (Recorded σ)) : Span e S w [] w := .of_host rfl (S.refl _)

theorem append (h : Span e S w a w') (h' : Span e S w' b w'') : Span e S w (a ++ b) w'' where
  steps := by rw [h'.steps, h.steps, List.append_assoc]
  linked := h.linked.append h'.linked

theorem recordStep (w : World (Recorded σ)) {act : EngineAct} {result : Outcome Unit} {v : World σ}
    (hm : Made e ⟨act, w.bare, result, v⟩) :
    Span e S w [⟨act, w.bare, result, v⟩] (w.recordStep act result v) where
  steps := rfl
  linked := .cons rfl (S.refl _) hm (.nil rfl (S.refl _))

/-- A recorded operation makes one step, in the world as it is. -/
theorem recorded_step {α : Type} {act : EngineAct} {x : Action (World σ) α} {o : Outcome α}
    (h : (Action.recorded act x).run w = (o, w'))
    (hm : Made e ⟨act, w.bare, (x.run w.bare).1.end, (x.run w.bare).2⟩) :
    ∃ c : EngineStep σ, c.act = act ∧ c.result = o.end ∧ c.before = w.bare ∧
      ∀ S, Span e S w [c] w' := by
  cases h
  exact ⟨_, rfl, rfl, rfl, fun _ => .recordStep w hm⟩

/-- A recorded operation makes one step. -/
theorem recorded {α : Type} {act : EngineAct} {x : Action (World σ) α} {o : Outcome α}
    (h : (Action.recorded act x).run w = (o, w'))
    (hm : Made e ⟨act, w.bare, (x.run w.bare).1.end, (x.run w.bare).2⟩) :
    ∃ c, c.act = act ∧ c.result = o.end ∧ Span e S w [c] w' := by
  obtain ⟨c, ha, hr, -, hs⟩ := recorded_step h hm
  exact ⟨c, ha, hr, hs S⟩

/-- The engine after a single step is that after the path of this step. -/
theorem engine_single {c : EngineStep σ} (h : Span e S w [c] w') :
    w'.engine.engine = c.after.engine := by
  obtain ⟨-, h⟩ := h
  cases h with
  | cons _ _ _ h =>
    cases h with
    | nil he _ => exact he

theorem made (h : Span e S w a w') : ∀ c ∈ a, Made e c := h.linked.made

/-- The record determines what was added to it. -/
theorem unique (h : Span e S w a w') (h' : w'.engine.steps = w.engine.steps ++ b) : a = b :=
  List.append_cancel_left (h.steps.symm.trans h')

end Span

/-- Steps of `e` are made, all of them of acts with `P`. -/
def traced (e : Engine σ) (S : HostFrame) (P : EngineAct → Prop) :
    Evolution (World (Recorded σ)) where
  Holds w w' := ∃ new, Span e S w new w' ∧ ∀ c ∈ new, P c.act
  refl w := ⟨[], .refl w, fun _ hc => absurd hc List.not_mem_nil⟩
  trans := by
    rintro w w' w'' ⟨a, ha, pa⟩ ⟨b, hb, pb⟩
    refine ⟨a ++ b, ha.append hb, fun c hc => ?_⟩
    rcases List.mem_append.1 hc with hc | hc
    · exact pa c hc
    · exact pb c hc

section
variable {e : Engine σ} {S : HostFrame} {P Q : EngineAct → Prop} {w w' : World (Recorded σ)}

theorem traced_mono (h : traced e S P w w') (hPQ : ∀ act, P act → Q act) :
    traced e S Q w w' := by
  obtain ⟨new, hs, hp⟩ := h
  exact ⟨new, hs, fun c hc => hPQ _ (hp c hc)⟩

theorem traced_of_host (he : w'.engine = w.engine) (hh : S.toEvolution w.host w'.host) :
    traced e S P w w' :=
  ⟨[], .of_host he hh, fun _ hc => absurd hc List.not_mem_nil⟩

theorem traced_recordStep (w : World (Recorded σ)) {act : EngineAct} {result : Outcome Unit}
    {v : World σ} (hm : Made e ⟨act, w.bare, result, v⟩) (hp : P act) :
    traced e S P w (w.recordStep act result v) :=
  ⟨_, .recordStep w hm, fun c hc => by cases List.mem_singleton.1 hc; exact hp⟩

/-! ## The operations -/

theorem follows_load (hp : P .load) : e.recorded.load.Follows (traced e S P) :=
  fun w => traced_recordStep w (.load _) hp

theorem follows_reset (hp : P .reset) : e.recorded.reset.Follows (traced e S P) :=
  fun w => traced_recordStep w (.reset _) hp

theorem follows_write {name : String} {content : ByteArray} (hp : P (.write name content)) :
    (e.recorded.write name content).Follows (traced e S P) :=
  fun w => traced_recordStep w (.write _ _ _) hp

theorem follows_read {name : String} (hp : P (.read name)) :
    (e.recorded.read name).Follows (traced e S P) :=
  fun w => traced_recordStep w (.read _ _) hp

theorem follows_delete {name : String} (hp : P (.delete name)) :
    (e.recorded.delete name).Follows (traced e S P) :=
  fun w => traced_recordStep w (.delete _ _) hp

theorem follows_execute {arguments : List String} (hp : P (.execute arguments)) :
    (e.recorded.execute arguments).Follows (traced e S P) :=
  .bind (fun w => traced_recordStep w (.execute _ _) hp) fun _ => .pure _

/-- Starting a command is one step, made in the world as it is. -/
theorem execute_span {arguments : List String}
    {o : Outcome (Execution (World (Recorded σ)) EngineEvent)}
    (h : (e.recorded.execute arguments).run w = (o, w')) :
    ∃ c : EngineStep σ, c.act = .execute arguments ∧ c.before = w.bare ∧ Span e S w [c] w' := by
  have step {p : Outcome (Execution (World σ) EngineEvent)} {v : World (Recorded σ)}
      (h : (Action.recorded (.execute arguments) (e.execute arguments)).run w = (p, v)) :
      ∃ c : EngineStep σ, c.act = .execute arguments ∧ c.before = w.bare ∧ Span e S w [c] v := by
    obtain ⟨c, act, -, before, span⟩ := Span.recorded_step h (.execute _ _)
    exact ⟨c, act, before, span S⟩
  rcases Action.bind_eq h with ⟨y, v, hy, h⟩ | ⟨f, hy, -⟩ | ⟨hy, -⟩
  · cases h
    exact step hy
  · exact step hy
  · exact step hy

theorem execute_recorded_eq {arguments : List String}
    {x : Execution (World (Recorded σ)) EngineEvent}
    (h : (e.recorded.execute arguments).run w = (.returned x, w')) :
    ∃ y, e.Starts arguments y ∧ x = y.recorded arguments := by
  obtain ⟨y, v, hy, hx⟩ := Action.bind_returned h
  cases hx
  have hf : ((e.execute arguments).run w.bare).1 = .returned y := congrArg Prod.fst hy
  exact ⟨y, ⟨w.bare, ((e.execute arguments).run w.bare).2, Prod.ext hf rfl⟩, rfl⟩

/-- An execution of the recorded engine makes steps of the engine. -/
theorem follows_execution {arguments : List String}
    {x : Execution (World (Recorded σ)) EngineEvent}
    (h : (e.recorded.execute arguments).run w = (.returned x, w'))
    (hp : ∀ act, act.IsOf arguments → P act) : x.Follows (traced e S P) := by
  obtain ⟨y, hy, rfl⟩ := execute_recorded_eq h
  refine ⟨fun m hm w => ?_, fun m hm w => ?_, fun w => ?_⟩
  · obtain ⟨n, hn, rfl⟩ := List.mem_map.1 hm
    exact traced_recordStep w (.emit hy hn _) (hp _ (.inl rfl))
  · obtain ⟨n, hn, rfl⟩ := List.mem_map.1 hm
    exact traced_recordStep w (.close hy hn _) (hp _ (.inr (.inl rfl)))
  · exact traced_recordStep w (.finish hy _) (hp _ (.inr (.inr rfl)))

end

/-! ## Executions in progress -/

/-- Whether an execution is in progress after a step, if `busy` tells it before: it is from the start
of a command, unless the start fails, until the execution delivers its end or the engine is reset. -/
def EngineStep.progress (busy : Bool) (c : EngineStep σ) : Bool :=
  match c.act, c.result with
  | .execute _, .raised _ => false
  | .execute _, _ => true
  | .finish _, .stalled => busy
  | .finish _, _ => false
  | .reset, .returned _ => false
  | _, _ => busy

/-- Whether an execution is in progress after steps. -/
def inProgress (steps : List (EngineStep σ)) : Bool := steps.foldl EngineStep.progress false

end VideoExport
