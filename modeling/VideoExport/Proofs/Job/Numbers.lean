import VideoExport.Proofs.Job.Report
import VideoExport.Proofs.Job.Simulation
import VideoExport.Proofs.Progress.Lines

/-!
# The numbers that are reported

A fraction is shown for every number that an event may carry, but not for an integer beyond the binary64
range (`EngineEvent.Vast`). A job to which nobody listens does the same whatever else its engine reports
(`numbers_immaterial`): it ends alike, with the same files.
-/

set_option autoImplicit false

namespace VideoExport

/-! ## Numbers that cannot be shown -/

/-- An integer beyond the binary64 range. -/
def Number.Vast (n : Number) : Prop := ∃ i : Int, n = .int i ∧ Binary64.overflow ≤ |(i : Rat)|

namespace Progress

theorem toReal_cases (n : Number) :
    (n.Vast ∧ n.toReal = .error .tooLargeForReal) ∨ ¬ n.Vast ∧ ∃ x, n.toReal = .ok x := by
  cases n with
  | real x => exact .inr ⟨nofun, x, rfl⟩
  | int i =>
    rcases Binary64.round_cases (i : Rat) false with ⟨inside, x, hx⟩ | ⟨beyond, -⟩
    · refine .inr ⟨?_, _, Number.toReal_of_round hx⟩
      rintro ⟨_, ⟨⟩, beyond⟩
      exact absurd inside (not_lt.2 beyond)
    · exact .inl ⟨⟨i, rfl, beyond⟩, Number.toReal_beyond beyond⟩

/-- The hundredth part of a finite number is a binary64 number. -/
theorem percentage {n : Number} {x : Binary64} (h : n.toReal = .ok x) (finite : x.isFinite = true) :
    ∃ q, n.div 100 = .ok (.real q) := by
  cases n with
  | real y =>
    cases h
    cases x with
    | finite x =>
      obtain ⟨q, hq, -⟩ := Number.div_positive (b := 100) x (by decide +kernel) (by decide +kernel)
      exact ⟨q, hq⟩
    | _ => cases finite
  | int i =>
    have quotient := Number.div_int i (n := 100) (by decide)
    rcases Binary64.round_cases ((i : Rat) / ((100 : Int) : Rat)) false with ⟨-, q, hq⟩ | ⟨beyond, -⟩
    · rw [hq] at quotient
      exact ⟨_, quotient⟩
    · -- the integer itself would be beyond the range
      have large : Binary64.overflow ≤ |(i : Rat)| := by
        rw [abs_div] at beyond
        refine beyond.trans (div_le_self (abs_nonneg _) ?_)
        norm_num
      cases (Number.toReal_beyond large).symm.trans h

theorem ofNumber_cases (n : Number) :
    (n.Vast ∧ ofNumber n = .error .tooLargeForReal) ∨ ¬ n.Vast ∧ ∃ x, ofNumber n = .ok x := by
  unfold ofNumber
  rcases toReal_cases n with ⟨vast, h⟩ | ⟨fits, x, h⟩
  · exact .inl ⟨vast, by rw [h]; rfl⟩
  · refine .inr ⟨fits, ?_⟩
    rw [h]
    show ∃ y, (if !x.isFinite then _ else _) = Except.ok y
    cases finite : x.isFinite with
    | false => exact ⟨_, rfl⟩
    | true =>
      obtain ⟨q, hq⟩ := percentage h finite
      simp only [Bool.not_true, Bool.false_eq_true, if_false]
      split
      · exact ⟨_, rfl⟩
      · split
        · exact ⟨_, by rw [hq]; rfl⟩
        · exact ⟨_, rfl⟩

end Progress

/-- The event carries an integer beyond the binary64 range. -/
def EngineEvent.Vast (event : EngineEvent) : Prop :=
  ∃ n, Progress.eventNumber? event = some n ∧ n.Vast

/-- A fraction is shown for an event, unless its number cannot be shown. -/
theorem Progress.normalize_cases (event : EngineEvent) :
    (event.Vast ∧ normalize (eventNumber? event) = .error .tooLargeForReal) ∨
      ¬ event.Vast ∧ ∃ x, normalize (eventNumber? event) = .ok x ∧ x.IsFraction := by
  unfold EngineEvent.Vast
  cases eventNumber? event with
  | none => exact .inr ⟨by simp, _, rfl, Binary64.isFraction_zero⟩
  | some n =>
    rcases ofNumber_cases n with ⟨vast, h⟩ | ⟨fits, x, h⟩
    · exact .inl ⟨⟨n, rfl, vast⟩, h⟩
    · exact .inr ⟨by simpa using fits, x, h, ofNumber_fraction h⟩

/-! ## Jobs without a listener -/

/-- Events that are the same but for the numbers of reports, all of which can be shown. -/
inductive EngineEvent.Renumbered : EngineEvent → EngineEvent → Prop
  | report {r r' : ProgressReport} (shown : ¬ Vast (.progress r)) (shown' : ¬ Vast (.progress r')) :
    Renumbered (.progress r) (.progress r')
  | log (message : String) : Renumbered (.log message) (.log message)
  | other (v : Value) : Renumbered (.other v) (.other v)

/-- Results that are the same but for their history. -/
def JobResult.SameOutput (r r' : JobResult) : Prop :=
  r.id = r'.id ∧ r.output = r'.output ∧ r.size = r'.size

namespace Job

variable {σ σ' κ : Type} {W : World σ → World σ' → Prop} {e : Engine σ} {e' : Engine σ'}
  {j : Job σ κ} {k : Job σ' κ}

/-- Two engines, and two states of jobs on them, that differ at most in the numbers that the engines
report and in the progress so far. -/
structure Renumbered (W : World σ → World σ' → Prop) (e : Engine σ) (e' : Engine σ') (j : Job σ κ)
    (k : Job σ' κ) : Prop where
  worlds : World.Alike W
  engines : Engine.Mirrors W EngineEvent.Renumbered e e'
  states : Alike W (fun _ _ => True) j k

/-- Without a listener a report only changes the progress, if its number can be shown. -/
theorem handle_report (id : String) {report : ProgressReport}
    (shown : ¬ EngineEvent.Vast (.progress report)) (j : Job σ κ) : ∃ tracker,
    (handle id none (.progress report)).run j = (.returned .more, { j with tracker }) := by
  rcases Progress.normalize_cases (.progress report) with ⟨vast, -⟩ | ⟨-, x, hx, -⟩
  · exact absurd vast shown
  · obtain ⟨tracker, updated⟩ : ∃ tracker, j.tracker.update report.number? = .ok tracker := by
      unfold Progress.Tracker.update
      rw [show Progress.normalize report.number? = .ok x from hx]
      exact ⟨_, rfl⟩
    refine ⟨tracker, ?_⟩
    unfold handle
    rw [Action.run_bind_of_returned (Action.run_read _ _), updated]
    rfl

theorem handledAlike_renumbered (hW : World.Alike W) (id : String) :
    HandledAlike (κ := κ) W (fun _ _ => True) EngineEvent.Renumbered id none := by
  intro a b same
  cases same with
  | report shown shown' =>
    intro j k hj
    obtain ⟨t, ht⟩ := handle_report id shown j
    obtain ⟨t', ht'⟩ := handle_report id shown' k
    rw [ht, ht']
    exact ⟨rfl, { hj with tracker := trivial }⟩
  | log message =>
    refine .bind mirrors_config fun _ => .bind (.modify fun _ _ hj => ?_) fun _ =>
      .bind (mirrors_host hW _) fun _ => .pure _
    exact { hj with log := by rw [hj.log] }
  | other v => exact .pure _

/-- A fraction is shown for the number of every event that is no integer beyond the binary64 range, and
for such an integer none can be. The numbers of reports that can be shown do not matter to a job without
a listener: runs of it end alike, with the same failure or with results that may differ in their history
only, and they leave the same host. -/
theorem numbers_immaterial :
    (∀ event : EngineEvent,
      (¬ event.Vast → ∃ x, Progress.normalize (Progress.eventNumber? event) = .ok x ∧ x.IsFraction) ∧
      (event.Vast →
        Progress.normalize (Progress.eventNumber? event) = .error .tooLargeForReal)) ∧
    (Renumbered W e e' j k → ∀ (probe : DurationProbe κ) (r : JobRequest),
      Outcome.Alike JobResult.SameOutput ((run e probe r none).run j).1
        ((run e' probe r none).run k).1 ∧
      ((run e probe r none).run j).2.host = ((run e' probe r none).run k).2.host) := by
  refine ⟨fun event => ?_, fun same probe r => ?_⟩
  · rcases Progress.normalize_cases event with ⟨vast, failed⟩ | ⟨fits, shown⟩
    · exact ⟨fun fits => absurd vast fits, fun _ => failed⟩
    · exact ⟨fun _ => shown, fun vast => absurd vast fits⟩
  · obtain ⟨ends, state⟩ := simulates_run same.worlds same.engines probe (r := r)
      (R := JobResult.SameOutput) (handledAlike_renumbered same.worlds r.id) trivial
      (fun _ _ _ _ => ⟨rfl, rfl, rfl⟩) j k same.states
    exact ⟨ends, same.worlds.host _ _ state.storage.world⟩

end Job

/-! ## Scripts with other numbers -/

/-- Steps of a script that are the same but for the numbers of reports. -/
inductive ExecutionStep.Renumbered : ExecutionStep → ExecutionStep → Prop
  | emits {a b : EngineEvent} (event : a.Renumbered b) : Renumbered (.emits a) (.emits b)
  | raises (f : Failure) : Renumbered (.raises f) (.raises f)
  | hangs : Renumbered .hangs .hangs

structure ExecutionScript.Renumbered (s s' : ExecutionScript) : Prop where
  steps : List.Forall₂ ExecutionStep.Renumbered s.steps s'.steps
  output : s.output = s'.output

namespace MemoryEngine

/-- A world with other scripts for the executions. -/
def withScripts (scripts : List ExecutionScript) (w : World MemoryEngine) : World MemoryEngine :=
  { w with engine := { w.engine with executions := scripts } }

/-- The scripts of the executions are the same but for the numbers of reports, and all else is the
same. -/
def Renumbered (w w' : World MemoryEngine) : Prop :=
  ∃ scripts, List.Forall₂ ExecutionScript.Renumbered w.engine.executions scripts ∧
    w' = withScripts scripts w

theorem alike_renumbered : World.Alike Renumbered where
  host := by
    rintro w _ ⟨_, -, rfl⟩
    rfl
  withHost := by
    rintro w _ h ⟨scripts, same, rfl⟩
    exact ⟨scripts, same, rfl⟩

theorem mirrors_modify {f : World MemoryEngine → World MemoryEngine}
    (script : ∀ w, (f w).engine.executions = w.engine.executions)
    (blind : ∀ w scripts, f (withScripts scripts w) = withScripts scripts (f w)) :
    (Action.modify f).Mirrors Renumbered (.modify f) := by
  refine .modify ?_
  rintro w _ ⟨scripts, same, rfl⟩
  exact ⟨scripts, script w ▸ same, blind w scripts⟩

theorem mirrors_record (call : EngineCall) : (record call).Mirrors Renumbered (record call) :=
  mirrors_modify (fun _ => rfl) fun _ _ => rfl

/-- What does not ask for the scripts may ask for the world. -/
theorem mirrors_get {α : Type} {k : World MemoryEngine → Action (World MemoryEngine) α}
    (blind : ∀ w scripts, k (withScripts scripts w) = k w)
    (hk : ∀ w, (k w).Mirrors Renumbered (k w)) :
    (Action.get >>= k).Mirrors Renumbered (Action.get >>= k) := by
  refine .get_bind ?_
  rintro w _ ⟨scripts, -, rfl⟩
  rw [blind]
  exact hk w

theorem renumbered_executionOf (arguments : List String) (output : Option Nat)
    {steps steps' : List ExecutionStep} (h : List.Forall₂ ExecutionStep.Renumbered steps steps') :
    Execution.Mirrors Renumbered EngineEvent.Renumbered
      (executionOf (writeOutput arguments output) steps)
      (executionOf (writeOutput arguments output) steps') := by
  induction h with
  | nil =>
    refine ⟨.nil, mirrors_modify (fun w => ?_) fun w _ => ?_⟩ <;>
      dsimp only <;> split <;> rfl
  | cons step _ ih =>
    cases step with
    | emits event => exact ⟨.cons ⟨event, fun _ _ => id, fun _ _ => id⟩ ih.emissions, ih.finish⟩
    | raises f => exact ⟨.nil, .raise f⟩
    | hangs => exact ⟨.nil, fun _ _ same => ⟨trivial, same⟩⟩

theorem renumbered_nextOf {scripts scripts' : List ExecutionScript}
    (h : List.Forall₂ ExecutionScript.Renumbered scripts scripts') :
    (nextOf scripts {}).1.Renumbered (nextOf scripts' {}).1 ∧
      List.Forall₂ ExecutionScript.Renumbered (nextOf scripts {}).2 (nextOf scripts' {}).2 := by
  cases h with
  | nil => exact ⟨⟨.nil, rfl⟩, .nil⟩
  | cons first rest =>
    cases rest with
    | nil => exact ⟨first, .cons first .nil⟩
    | cons second rest => exact ⟨first, .cons second rest⟩

theorem simulates_execute (arguments : List String) : (execute arguments).Simulates Renumbered
    (Execution.Mirrors Renumbered EngineEvent.Renumbered) (execute arguments) := by
  refine (mirrors_record _).andThen fun _ => ?_
  rintro w _ ⟨scripts, same, rfl⟩
  obtain ⟨first, rest⟩ := renumbered_nextOf same
  refine ⟨?_, _, rest, rfl⟩
  show Execution.Mirrors _ _ (executionOf (writeOutput arguments (nextOf w.engine.executions {}).1.output)
    (nextOf w.engine.executions {}).1.steps) (executionOf
      (writeOutput arguments (nextOf scripts {}).1.output) (nextOf scripts {}).1.steps)
  rw [first.output]
  exact renumbered_executionOf arguments _ first.steps

/-- Scripts that differ in the numbers of reports make the engine in memory do the same. -/
theorem mirrors_renumbered : Engine.Mirrors Renumbered EngineEvent.Renumbered engine engine where
  isLoaded := by
    rintro w _ ⟨_, -, rfl⟩
    rfl
  load := by
    refine .bind (mirrors_record _) fun _ => mirrors_get (fun _ _ => rfl) fun w => ?_
    rcases nextOf w.engine.loads .succeeds with ⟨script, rest⟩
    refine .bind (mirrors_modify (fun _ => rfl) fun _ _ => rfl) fun _ => ?_
    cases script with
    | succeeds => exact mirrors_modify (fun _ => rfl) fun _ _ => rfl
    | raises f => exact .raise f
    | hangs => exact fun _ _ same => ⟨trivial, same⟩
  write name content := by
    refine mirrors_get (fun _ _ => rfl) fun w => ?_
    split
    · exact .bind (mirrors_record _) fun _ => .raise _
    · exact .bind (mirrors_record _) fun _ => mirrors_modify (fun _ => rfl) fun _ _ => rfl
  read name := by
    refine mirrors_get (fun _ _ => rfl) fun w => ?_
    split
    · exact .bind (mirrors_record _) fun _ => .raise _
    · refine .bind (mirrors_record _) fun _ => ?_
      split
      · exact .pure _
      · exact .raise _
  delete name := by
    refine mirrors_get (fun _ _ => rfl) fun w => ?_
    split
    · exact .bind (mirrors_record _) fun _ => .raise _
    · split
      · exact .bind (mirrors_record _) fun _ => mirrors_modify (fun _ => rfl) fun _ _ => rfl
      · exact .bind (mirrors_record _) fun _ => .raise _
  execute := simulates_execute
  reset := .bind (mirrors_record _) fun _ => mirrors_modify (fun _ => rfl) fun _ _ => rfl

end MemoryEngine

namespace Job

/-- The state before a job on an engine in memory that reports a number. -/
def beforeNumber (n : Number) : Job MemoryEngine Unit where
  host := ((Host.writeFile "clip.mp4" ⟨#[0]⟩).run {}).2
  engine := { executions := [{ steps := [.emits (.progress { progress := .number n })] }] }
  runner := .ofConfig {}
  client := ()

/-- The run of the job. -/
def numberedRun (n : Number) : Outcome JobResult × Job MemoryEngine Unit :=
  (run MemoryEngine.engine unknownLength octetClip none).run (beforeNumber n)

theorem beforeNumber_renumbered {m n : Number} (hm : ¬ m.Vast) (hn : ¬ n.Vast) :
    Renumbered MemoryEngine.Renumbered MemoryEngine.engine MemoryEngine.engine (beforeNumber m)
      (beforeNumber n) where
  worlds := MemoryEngine.alike_renumbered
  engines := MemoryEngine.mirrors_renumbered
  states := by
    have shown {n : Number} (hn : ¬ n.Vast) :
        ¬ EngineEvent.Vast (.progress { progress := .number n }) := by
      rintro ⟨_, ⟨⟩, vast⟩
      exact hn vast
    have scripts : MemoryEngine.Renumbered (beforeNumber m).toWorld (beforeNumber n).toWorld :=
      ⟨(beforeNumber n).engine.executions,
        .cons ⟨.cons (.emits (.report (shown hm) (shown hn))) .nil, rfl⟩ .nil, rfl⟩
    exact ⟨⟨scripts, rfl⟩, rfl, rfl, trivial, rfl⟩

/-- Half and a quarter, the latter as a percentage, lead to the same files. -/
theorem numberedRun_same :
    Renumbered MemoryEngine.Renumbered MemoryEngine.engine MemoryEngine.engine
      (beforeNumber (.decimal 5 1)) (beforeNumber 25) ∧
    (numberedRun (.decimal 5 1)).1.returned?.map (·.size) = some 1024 ∧
    (numberedRun (.decimal 5 1)).2.host = (numberedRun 25).2.host := by
  have fits : ¬ (25 : Number).Vast := by
    rintro ⟨_, ⟨⟩, vast⟩
    exact absurd vast (by decide +kernel)
  have same := beforeNumber_renumbered (m := .decimal 5 1) nofun fits
  exact ⟨same, by decide +kernel, (numbers_immaterial.2 same unknownLength octetClip).2⟩

/-- Whether a run failed because a number cannot be shown. -/
def failedVast : Outcome JobResult → Bool
  | .raised (.exportFailed (.numeric .tooLargeForReal) []) => true
  | _ => false

/-- An integer of four hundred zeros cannot be shown, and a job whose engine reports it fails, although
it is done if another number is reported. -/
theorem vast_number_fails :
    Progress.normalize (Progress.eventNumber? (.other (.number (.int (10 ^ 400))))) =
      .error .tooLargeForReal ∧
    failedVast (numberedRun (.int (10 ^ 400))).1 = true ∧
    (numberedRun 25).1.returned?.map (·.size) = some 1024 := by
  refine ⟨?_, by decide +kernel, by decide +kernel⟩
  rcases Progress.normalize_cases (.other (.number (.int (10 ^ 400)))) with ⟨-, failed⟩ | ⟨fits, -⟩
  · exact failed
  · exact absurd ⟨_, rfl, _, rfl, by decide +kernel⟩ fits

end Job

end VideoExport
