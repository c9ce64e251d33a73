import VideoExport.Engine.Local
import VideoExport.Proofs.Host
import VideoExport.Proofs.Progress

/-!
# What the lines of a program come to

A program that a local engine runs writes lines on its error stream and on its output. The former are
the engine's log, the latter may be reports (`LocalEngine.eventsOf`). An execution tells what its lines
come to, in the order of their arrival (`events_transcript`), and its end is the program's
(`finish_transcript`): a failure shows the last lines of the error stream, of which enough are kept
(`lastLines_lastLines`).
-/

set_option autoImplicit false

namespace VideoExport

namespace ProcessStep

/-- The line that a step writes on the error stream. -/
def error? : ProcessStep → Option String
  | .error line => some line
  | _ => none

/-- The line that a step writes on the output. -/
def output? : ProcessStep → Option String
  | .output line => some line
  | _ => none

end ProcessStep

namespace Execution

variable {ω ε : Type}

theorem events_after (change : ω → ω) (x : Execution ω ε) : (x.after change).events = x.events := by
  unfold after
  split
  · rfl
  · rename_i h
    simp [events, h]

theorem events_prepend (earlier : List (Emission ω ε)) (x : Execution ω ε) :
    (x.prepend earlier).events = earlier.map (·.event) ++ x.events := by
  simp [events, prepend]

end Execution

namespace LocalEngine

/-! ## Lines and their events -/

/-- The report that a line of the output makes, for a source of a length. -/
def parsed (d : Number) (line : String) : Except NumericError (Option ProgressReport) :=
  Progress.parseLine (String.ofList (Text.strip line.toList)) d

/-- No failure arises from a line. -/
def Parses (d : Number) (line : String) : Prop := ∃ report, parsed d line = .ok report

/-- The report of a line from which no failure arises. -/
def reportOf (d : Number) (line : String) : Option ProgressReport := (parsed d line).toOption.join

/-- What a step of the program comes to. -/
def eventsOf (d : Number) : ProcessStep → List EngineEvent
  | .error line => [.log (withoutBreak line)]
  | .output line => (reportOf d line).toList.map .progress
  | .hang => []

/-- How the execution of a program ends, by its code and the last lines of its error stream. -/
def verdict (code : Int) (tail : List String) : Outcome Unit :=
  if code = 0 then .returned ()
  else .raised (.execution (some code) ("\n".intercalate (lastLines shownLines tail)))

section
variable {d : Number} {line : String} {report : Option ProgressReport}

theorem reportOf_parsed (h : parsed d line = .ok report) : reportOf d line = report := by
  rw [reportOf, h]
  rfl

theorem eventsOf_lines (step : ProcessStep) :
    (eventsOf d step).filterMap EngineEvent.line? = (step.error?.map withoutBreak).toList := by
  cases step with
  | error line => rfl
  | output line => cases h : reportOf d line <;> simp [eventsOf, h, EngineEvent.line?, ProcessStep.error?]
  | hang => rfl

theorem eventsOf_reports (step : ProcessStep) :
    (eventsOf d step).filterMap EngineEvent.report? = (step.output?.bind (reportOf d)).toList := by
  cases step with
  | error line => rfl
  | output line =>
    cases h : reportOf d line <;> simp [eventsOf, h, EngineEvent.report?, ProcessStep.output?]
  | hang => rfl

/-- The log of some steps are the lines of the error stream. -/
theorem lines_flatMap (steps : List ProcessStep) :
    (steps.flatMap (eventsOf d)).filterMap EngineEvent.line? =
      (steps.filterMap ProcessStep.error?).map withoutBreak := by
  induction steps with
  | nil => rfl
  | cons step rest ih =>
    rw [List.flatMap_cons, List.filterMap_append, eventsOf_lines, ih]
    cases h : step.error? <;> simp [h]

/-- The reports of some steps are those of the lines of the output. -/
theorem reports_flatMap (steps : List ProcessStep) :
    (steps.flatMap (eventsOf d)).filterMap EngineEvent.report? =
      (steps.filterMap ProcessStep.output?).filterMap (reportOf d) := by
  induction steps with
  | nil => rfl
  | cons step rest ih =>
    rw [List.flatMap_cons, List.filterMap_append, eventsOf_reports, ih]
    cases h : step.output? <;> simp [h, List.filterMap_cons]
    cases reportOf d _ <;> rfl

end

/-! ## Last lines -/

section
variable (a b : Nat) (lines more : List String)

/-- Lines that come after the last ones of others are the last ones if they come after all. -/
theorem lastLines_append : lastLines a (lastLines a lines ++ more) = lastLines a (lines ++ more) := by
  unfold lastLines
  rw [← List.drop_append_of_le_length (by omega), List.drop_drop]
  congr 1
  simp only [List.length_drop, List.length_append]
  omega

/-- Fewer of the last lines are the last ones of all. -/
theorem lastLines_lastLines (h : a ≤ b) : lastLines a (lastLines b lines) = lastLines a lines := by
  unfold lastLines
  rw [List.drop_drop, List.length_drop]
  congr 1
  omega

theorem lastLines_suffix : lastLines a lines <:+ lines := List.drop_suffix _ _

theorem length_lastLines : (lastLines a lines).length = min a lines.length := by
  unfold lastLines
  rw [List.length_drop]
  omega

end

/-! ## Executions -/

section
variable {p : Host.Process} {d : Number}

/-- It does not matter that only some of the last lines are kept. -/
theorem verdict_kept (code : Int) (lines : List String) :
    verdict code (lastLines keptLines lines) = verdict code lines := by
  unfold verdict
  rw [lastLines_lastLines shownLines keptLines lines (by decide)]

theorem conclude_run (lines : List String) (w : World LocalEngine) :
    ((conclude p lines).run w).1 = verdict p.script.code lines := by
  rw [← verdict_kept]
  unfold conclude verdict
  by_cases h : p.script.code = 0
  · rw [if_pos h, if_pos h]
    rfl
  · rw [if_neg h, if_neg h]
    rfl

/-- An execution tells what its steps come to, one after another. -/
theorem events_transcript : ∀ (r : Reading) (steps : List ProcessStep), .hang ∉ steps →
    (∀ line, .output line ∈ steps → Parses d line) →
    (transcript p d r steps).events = r.waiting.map .log ++ steps.flatMap (eventsOf d)
  | r, [], _, _ => by
    rw [transcript, Execution.events_after]
    simp [Execution.events, logEvents]
  | _, .hang :: _, running, _ => absurd (.head _) running
  | r, .error line :: rest, running, parses => by
    rw [transcript, events_transcript _ rest (fun h => running (.tail _ h))
      fun line h => parses line (.tail _ h)]
    simp [eventsOf]
  | r, .output line :: rest, running, parses => by
    obtain ⟨report, hp⟩ := parses line (.head _)
    have later := events_transcript ⟨[], r.passed ++ r.waiting⟩ rest
      (fun h => running (.tail _ h)) fun line h => parses line (.tail _ h)
    have told : eventsOf d (.output line) = report.toList.map .progress := by
      rw [eventsOf, reportOf_parsed hp]
    unfold parsed at hp
    rw [transcript]
    dsimp only
    rw [hp]
    dsimp only
    rw [Execution.events_prepend, later, List.flatMap_cons, told]
    simp [logEvents, Function.comp_def]

/-- An execution ends as the code of its program says. -/
theorem finish_transcript (w : World LocalEngine) : ∀ (r : Reading) (steps : List ProcessStep),
    .hang ∉ steps → (∀ line, .output line ∈ steps → Parses d line) →
    ((transcript p d r steps).finish.run w).1 = verdict p.script.code
      (r.passed ++ r.waiting ++ (steps.filterMap ProcessStep.error?).map withoutBreak)
  | r, [], _, _ => by
    rw [transcript, List.filterMap_nil, List.map_nil, List.append_nil]
    unfold Execution.after
    split
    · exact conclude_run _ _
    · exact conclude_run _ _
  | _, .hang :: _, running, _ => absurd (.head _) running
  | r, .error line :: rest, running, parses => by
    rw [transcript, finish_transcript w _ rest (fun h => running (.tail _ h))
      fun line h => parses line (.tail _ h)]
    simp [ProcessStep.error?]
  | r, .output line :: rest, running, parses => by
    obtain ⟨report, hp⟩ := parses line (.head _)
    have later := finish_transcript w ⟨[], r.passed ++ r.waiting⟩ rest
      (fun h => running (.tail _ h)) fun line h => parses line (.tail _ h)
    unfold parsed at hp
    rw [transcript]
    dsimp only
    rw [hp]
    rw [List.filterMap_cons_none rfl]
    simpa [Execution.prepend] using later

end

end LocalEngine

end VideoExport
