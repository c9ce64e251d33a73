import Mathlib.Logic.Relation
import VideoExport.Proofs.Engine.Lines

/-!
# The two streams of a program

While a local engine executes a command, two parties work side by side. A reader takes the lines of the
program's error stream and hands them over through a queue, in which it also marks the end of the
stream. A loop takes the lines of the output; before it turns to a line, and once more at the end, it
passes on what the queue holds. `Streams` is a state of the two, `Streams.Step` what either of them can do
next, in whichever order they come to it.

What the loop tells is told by the lines in some order in which they may arrive (`Streams.Accounts`), so
that the executions of the engine tell exactly what the two parties can tell (`told_iff_transcript`). No
line gets lost and none is made up, both parties come to their end, and the lines that have arrived
before a line of the output are told before it (`execute_accounted`).
-/

set_option autoImplicit false

namespace VideoExport

namespace LocalEngine

/-! ## Reader and loop -/

/-- What the loop over the output is about. -/
inductive Stage where
  /-- It waits for a line. -/
  | listening
  /-- It passes on what the queue holds before it turns to a line. -/
  | draining (line : String)
  /-- The output and the reader have ended; it passes on what the queue holds. -/
  | closing
  | ended

namespace Stage

/-- The loop takes lines from the queue. -/
def Drains : Stage → Prop
  | .draining _ | .closing => True
  | _ => False

/-- The lines that were taken from the output and not yet turned to. -/
def pending : Stage → List String
  | .draining line => [line]
  | _ => []

/-- The output has ended. -/
def Closed : Stage → Prop
  | .closing | .ended => True
  | _ => False

end Stage

/-- A state of the reader and the loop. -/
structure Streams where
  /-- Lines of the error stream that the reader has yet to take. -/
  unread : List String
  /-- Lines of the output that the loop has yet to take. -/
  output : List String
  /-- What the reader has handed over; `none` is its mark of the end. -/
  queue : List (Option String) := []
  /-- Whether the reader has marked the end. -/
  marked : Bool := false
  stage : Stage := .listening
  /-- The last lines of the error stream that were passed on. -/
  tail : List String := []
  told : List EngineEvent := []

namespace Streams

/-- The lines of the error stream that have arrived. -/
def arrived (s : Streams) : List String := s.told.filterMap EngineEvent.line? ++ s.queue.filterMap id

/-- The loop takes a line from the output. -/
def take (s : Streams) (line : String) (rest : List String) : Streams :=
  { s with output := rest, stage := .draining line }

/-- What the reader or the loop does next. -/
inductive Step (d : Number) : Streams → Streams → Prop
  /-- The reader hands over a line. -/
  | put {s : Streams} {line : String} {rest : List String} : s.unread = line :: rest →
    Step d s { s with unread := rest, queue := s.queue ++ [some (withoutBreak line)] }
  /-- The reader marks the end of the error stream, and ends. -/
  | mark {s : Streams} : s.unread = [] → s.marked = false →
    Step d s { s with queue := s.queue ++ [none], marked := true }
  | take {s : Streams} {line : String} {rest : List String} : s.stage = .listening →
    s.output = line :: rest → Step d s (s.take line rest)
  /-- The loop passes on a line of the error stream. -/
  | pass {s : Streams} {line : String} {rest : List (Option String)} : s.stage.Drains →
    s.queue = some line :: rest → Step d s { s with
      queue := rest
      tail := lastLines keptLines (s.tail ++ [line])
      told := s.told ++ [.log line] }
  /-- The loop finds the queue empty, or takes the mark from it, and turns to its line. -/
  | turn {s : Streams} {line : String} {report : Option ProgressReport} :
    s.stage = .draining line → s.queue.head?.join = none → parsed d line = .ok report →
    Step d s { s with
      queue := s.queue.tail
      stage := .listening
      told := s.told ++ report.toList.map .progress }
  /-- The output has ended, and the loop has waited for the reader. -/
  | close {s : Streams} : s.stage = .listening → s.output = [] → s.marked = true →
    Step d s { s with stage := .closing }
  | finish {s : Streams} : s.stage = .closing → s.queue.head?.join = none →
    Step d s { s with queue := s.queue.tail, stage := .ended }

/-- What can come of a state. -/
def Runs (d : Number) : Streams → Streams → Prop := Relation.ReflTransGen (Step d)

/-! ### Accounts -/

/-- The books of the two parties, for the lines of both streams: `steps` are those that are dealt with,
in the order in which the loop came to know of them, and `waiting` those in the queue. -/
structure Accounts (d : Number) (errors outputs : List String) (steps : List ProcessStep)
    (waiting : List String) (s : Streams) : Prop where
  errors : steps.filterMap ProcessStep.error? ++ s.unread = errors
  outputs : steps.filterMap ProcessStep.output? ++ (s.stage.pending ++ s.output) = outputs
  running : .hang ∉ steps
  parsed : ∀ line, .output line ∈ steps → Parses d line
  told : s.told ++ waiting.map .log = steps.flatMap (eventsOf d)
  tail : s.tail = lastLines keptLines (s.told.filterMap EngineEvent.line?)
  queue : s.queue = waiting.map some ∨ s.marked = true ∧ s.queue = waiting.map some ++ [none]
  marked : s.marked = true → s.unread = []
  closed : s.stage.Closed → s.marked = true ∧ s.output = []
  ended : s.stage = .ended → waiting = []

variable {d : Number} {errors outputs waiting : List String} {steps : List ProcessStep}
  {s t : Streams}

theorem accounts_start (errors outputs : List String) :
    Accounts d errors outputs [] [] { unread := errors, output := outputs } where
  errors := rfl
  outputs := rfl
  running := List.not_mem_nil
  parsed _ h := absurd h List.not_mem_nil
  told := rfl
  tail := List.drop_nil.symm
  queue := .inl rfl
  marked := nofun
  closed := nofun
  ended _ := rfl

/-- No line waits where the loop finds none. -/
theorem Accounts.nothing_waits (h : Accounts d errors outputs steps waiting s)
    (empty : s.queue.head?.join = none) : waiting = [] ∧ (s.queue = [] ∨ s.queue = [none]) := by
  cases waiting with
  | nil => exact ⟨rfl, h.queue.imp id And.right⟩
  | cons line rest => rcases h.queue with hq | ⟨-, hq⟩ <;> rw [hq] at empty <;> cases empty

/-- A line that the loop finds is the first that waits. -/
theorem Accounts.first_waits {line : String} {rest : List (Option String)}
    (h : Accounts d errors outputs steps waiting s) (found : s.queue = some line :: rest) :
    ∃ others, waiting = line :: others ∧
      (rest = others.map some ∨ s.marked = true ∧ rest = others.map some ++ [none]) := by
  cases waiting with
  | nil => rcases h.queue with hq | ⟨-, hq⟩ <;> rw [hq] at found <;> cases found
  | cons other others =>
    rcases h.queue with hq | ⟨hm, hq⟩ <;> rw [hq] at found <;> cases found
    · exact ⟨others, rfl, .inl rfl⟩
    · exact ⟨others, rfl, .inr ⟨hm, rfl⟩⟩

/-- As long as the reader has not marked the end, lines alone are in the queue and the output goes on. -/
theorem Accounts.unmarked (h : Accounts d errors outputs steps waiting s) (unmarked : s.marked = false) :
    s.queue = waiting.map some ∧ ¬ s.stage.Closed := by
  refine ⟨h.queue.resolve_right fun hq => ?_, fun hc => ?_⟩
  · exact Bool.eq_false_iff.1 unmarked hq.1
  · exact Bool.eq_false_iff.1 unmarked (h.closed hc).1

section
variable {line : String} {rest : List String}

/-- A line that the reader hands over is dealt with, and waits. -/
theorem Accounts.put (h : Accounts d errors outputs steps waiting s) (unread : s.unread = line :: rest) :
    Accounts d errors outputs (steps ++ [.error line]) (waiting ++ [withoutBreak line])
      { s with unread := rest, queue := s.queue ++ [some (withoutBreak line)] } := by
  have unmarked : s.marked = false := by
    refine Bool.eq_false_iff.2 fun hm => ?_
    rw [h.marked hm] at unread
    cases unread
  obtain ⟨queue, open_⟩ := h.unmarked unmarked
  refine {
    h with
    errors := ?_, outputs := ?_, running := ?_, parsed := ?_, told := ?_, queue := .inl ?_
    marked := fun hm => absurd hm (Bool.eq_false_iff.1 unmarked)
    closed := fun hc => absurd hc open_
    ended := fun he => absurd (show s.stage.Closed from he ▸ trivial) open_ }
  · rw [← h.errors, unread]
    simp [ProcessStep.error?]
  · rw [← h.outputs]
    simp [ProcessStep.output?]
  · simpa using h.running
  · simpa using h.parsed
  · rw [List.map_append, ← List.append_assoc, h.told]
    simp [eventsOf]
  · rw [queue]
    simp

theorem Accounts.mark (h : Accounts d errors outputs steps waiting s) (unread : s.unread = [])
    (unmarked : s.marked = false) : Accounts d errors outputs steps waiting
      { s with queue := s.queue ++ [none], marked := true } :=
  { h with
    queue := .inr ⟨rfl, by rw [(h.unmarked unmarked).1]⟩
    marked := fun _ => unread
    closed := fun hc => ⟨rfl, (h.closed hc).2⟩ }

theorem Accounts.take (h : Accounts d errors outputs steps waiting s) (listening : s.stage = .listening)
    (output : s.output = line :: rest) :
    Accounts d errors outputs steps waiting (s.take line rest) :=
  { h with
    outputs := by
      rw [← h.outputs, listening, output]
      rfl
    closed := by rintro ⟨⟩
    ended := by rintro ⟨⟩ }

/-- A line of the error stream that the loop passes on waits no more. -/
theorem Accounts.pass {queued : List (Option String)} (h : Accounts d errors outputs steps waiting s)
    (drains : s.stage.Drains) (found : s.queue = some line :: queued) :
    ∃ others, Accounts d errors outputs steps others { s with
      queue := queued
      tail := lastLines keptLines (s.tail ++ [line])
      told := s.told ++ [.log line] } := by
  obtain ⟨others, rfl, queue⟩ := h.first_waits found
  refine ⟨others, { h with told := ?_, tail := ?_, queue, ended := fun he => ?_ }⟩
  · rw [← h.told]
    simp
  · rw [h.tail, lastLines_append]
    simp [EngineEvent.line?]
  · rw [show s.stage = .ended from he] at drains
    cases drains

/-- The line that the loop turns to is dealt with when no other waits. -/
theorem Accounts.turn {report : Option ProgressReport} (h : Accounts d errors outputs steps waiting s)
    (draining : s.stage = .draining line) (empty : s.queue.head?.join = none)
    (hp : LocalEngine.parsed d line = .ok report) :
    Accounts d errors outputs (steps ++ [.output line]) [] { s with
      queue := s.queue.tail
      stage := .listening
      told := s.told ++ report.toList.map .progress } := by
  obtain ⟨rfl, queue⟩ := h.nothing_waits empty
  have told : eventsOf d (.output line) = report.toList.map .progress := by
    rw [eventsOf, reportOf_parsed hp]
  have silent : (report.toList.map EngineEvent.progress).filterMap EngineEvent.line? = [] := by
    cases report <;> rfl
  refine {
    h with
    errors := ?_, outputs := ?_, running := ?_, parsed := ?_, told := ?_, tail := ?_
    queue := .inl ?_
    closed := by rintro ⟨⟩
    ended := by rintro ⟨⟩ }
  · rw [← h.errors]
    simp [ProcessStep.error?]
  · rw [← h.outputs, draining]
    simp [ProcessStep.output?, Stage.pending]
  · simpa using h.running
  · intro other ho
    rcases List.mem_append.1 ho with ho | ho
    · exact h.parsed other ho
    · cases List.mem_singleton.1 ho
      exact ⟨report, hp⟩
  · rw [List.flatMap_append, ← h.told, List.flatMap_singleton, told]
    simp
  · rw [List.filterMap_append, silent, List.append_nil]
    exact h.tail
  · rcases queue with hq | hq <;> rw [hq] <;> rfl

theorem Accounts.close (h : Accounts d errors outputs steps waiting s) (listening : s.stage = .listening)
    (output : s.output = []) (marked : s.marked = true) :
    Accounts d errors outputs steps waiting { s with stage := .closing } :=
  { h with
    outputs := by
      rw [← h.outputs, listening]
      rfl
    closed := fun _ => ⟨marked, output⟩
    ended := by rintro ⟨⟩ }

theorem Accounts.finish (h : Accounts d errors outputs steps waiting s) (closing : s.stage = .closing)
    (empty : s.queue.head?.join = none) :
    Accounts d errors outputs steps [] { s with queue := s.queue.tail, stage := .ended } := by
  obtain ⟨rfl, queue⟩ := h.nothing_waits empty
  exact { h with
    outputs := by
      rw [← h.outputs, closing]
      rfl
    queue := .inl (by rcases queue with hq | hq <;> rw [hq] <;> rfl)
    closed := fun _ => h.closed (by rw [closing]; trivial)
    ended := fun _ => rfl }

end

/-- Whatever the parties do next, their books stay in order: a step is added when a line arrives or is
turned to. -/
theorem Accounts.step (h : Accounts d errors outputs steps waiting s) (next : Step d s t) :
    ∃ more waiting', Accounts d errors outputs (steps ++ more) waiting' t := by
  have unadded {others : List String} (books : Accounts d errors outputs steps others t) :
      ∃ more waiting', Accounts d errors outputs (steps ++ more) waiting' t :=
    ⟨[], others, by rwa [List.append_nil]⟩
  cases next with
  | put unread => exact ⟨_, _, h.put unread⟩
  | mark unread unmarked => exact unadded (h.mark unread unmarked)
  | take listening output => exact unadded (h.take listening output)
  | pass drains found =>
    obtain ⟨others, books⟩ := h.pass drains found
    exact unadded books
  | turn draining empty hp => exact ⟨_, _, h.turn draining empty hp⟩
  | close listening output marked => exact unadded (h.close listening output marked)
  | finish closing empty => exact unadded (h.finish closing empty)

/-- The books stay in order through a run. -/
theorem Accounts.runs (h : Accounts d errors outputs steps waiting s) (run : Runs d s t) :
    ∃ more waiting', Accounts d errors outputs (steps ++ more) waiting' t := by
  induction run with
  | refl => exact ⟨[], waiting, by rwa [List.append_nil]⟩
  | tail _ next ih =>
    obtain ⟨more, _, books⟩ := ih
    obtain ⟨last, waiting', books⟩ := books.step next
    exact ⟨more ++ last, waiting', by rwa [← List.append_assoc]⟩

/-- What has arrived are the lines of the error stream among the steps. -/
theorem Accounts.arrived_eq (h : Accounts d errors outputs steps waiting s) :
    s.arrived = (steps.filterMap ProcessStep.error?).map withoutBreak := by
  have waits : s.queue.filterMap id = waiting := by
    rcases h.queue with hq | ⟨-, hq⟩ <;> rw [hq] <;> simp
  have logged : (waiting.map EngineEvent.log).filterMap EngineEvent.line? = waiting := by
    simp [List.filterMap_map, Function.comp_def, EngineEvent.line?]
  rw [← lines_flatMap (d := d), ← h.told, List.filterMap_append, logged, arrived, waits]

/-! ### Ends -/

/-- How much there is left to do. -/
def work (s : Streams) : Nat :=
  let stage := match s.stage with
    | .listening => 2
    | .draining _ => 3
    | .closing => 1
    | .ended => 0
  2 * s.unread.length + 2 * (!s.marked).toNat + s.queue.length + 2 * s.output.length + stage

theorem Step.work_lt (next : Step d s t) : t.work < s.work := by
  cases next with
  | put unread => simp [work, unread]; omega
  | mark _ unmarked => simp [work, unmarked]; omega
  | take listening output => simp [work, Streams.take, listening, output]; omega
  | pass _ found => simp [work, found]
  | turn draining =>
    simp only [work, draining, List.length_tail]
    omega
  | close listening => simp [work, listening]
  | finish closing =>
    simp only [work, closing, List.length_tail]
    omega

/-- The parties do not go on for ever. -/
theorem accessible (d : Number) (s : Streams) : Acc (fun t s => Step d s t) s :=
  Subrelation.accessible (fun next => Step.work_lt next) ((measure work).wf.apply s)

/-- A loop that takes lines from the queue can go on. -/
theorem next_of_drains (drains : s.stage.Drains)
    (parses : ∀ line, s.stage = .draining line → Parses d line) : ∃ t, Step d s t := by
  by_cases empty : s.queue.head?.join = none
  · cases stage : s.stage with
    | draining line =>
      obtain ⟨_, hp⟩ := parses line stage
      exact ⟨_, .turn stage empty hp⟩
    | closing => exact ⟨_, .finish stage empty⟩
    | _ => rw [stage] at drains; cases drains
  · cases queue : s.queue with
    | nil => exact absurd (by rw [queue]; rfl) empty
    | cons first rest =>
      cases first with
      | none => exact absurd (by rw [queue]; rfl) empty
      | some line => exact ⟨_, .pass drains queue⟩

/-- One of the parties can go on as long as the loop has not come to its end. -/
theorem Accounts.next (h : Accounts d errors outputs steps waiting s)
    (parses : ∀ line ∈ outputs, Parses d line) : s.stage = .ended ∨ ∃ t, Step d s t := by
  cases unread : s.unread with
  | cons line rest => exact .inr ⟨_, .put unread⟩
  | nil =>
    cases marked : s.marked with
    | false => exact .inr ⟨_, .mark unread marked⟩
    | true =>
      cases stage : s.stage with
      | listening =>
        cases output : s.output with
        | nil => exact .inr ⟨_, .close stage output marked⟩
        | cons line rest => exact .inr ⟨_, .take stage output⟩
      | draining line =>
        refine .inr (next_of_drains (by rw [stage]; trivial) fun other ho => ?_)
        cases stage.symm.trans ho
        refine parses line ?_
        rw [← h.outputs, stage]
        simp [Stage.pending]
      | closing =>
        refine .inr (next_of_drains (by rw [stage]; trivial) fun _ ho => ?_)
        rw [stage] at ho
        cases ho
      | ended => exact .inl rfl

/-- At the end everything is told. -/
theorem Accounts.all_told (h : Accounts d errors outputs steps waiting s) (ended : s.stage = .ended) :
    steps.filterMap ProcessStep.error? = errors ∧ steps.filterMap ProcessStep.output? = outputs ∧
      s.told = steps.flatMap (eventsOf d) := by
  obtain ⟨marked, output⟩ := h.closed (by rw [ended]; trivial)
  have errors := h.errors
  have outputs := h.outputs
  have told := h.told
  rw [h.marked marked, List.append_nil] at errors
  rw [ended, output] at outputs
  rw [h.ended ended] at told
  exact ⟨errors, by simpa [Stage.pending] using outputs, by simpa using told⟩

theorem Accounts.verdict_eq (h : Accounts d errors outputs steps waiting s) (ended : s.stage = .ended)
    (code : Int) : verdict code s.tail = verdict code (errors.map withoutBreak) := by
  obtain ⟨hErrors, -, told⟩ := h.all_told ended
  rw [h.tail, verdict_kept, told, lines_flatMap, hErrors]

end Streams

/-- Everything that a program wrote is told, once and in order, nothing else is, and the end is the one
that the program's code and the last lines of its error stream make. -/
structure Accounted (d : Number) (errors outputs : List String) (code : Int)
    (told : List EngineEvent) (ending : Outcome Unit) : Prop where
  lines : told.filterMap EngineEvent.line? = errors.map withoutBreak
  reports : told.filterMap EngineEvent.report? = outputs.filterMap (reportOf d)
  others : ∀ v, .other v ∉ told
  succeeds : ending = .returned () ↔ code = 0
  fails : code ≠ 0 → ∃ last, last <:+ errors.map withoutBreak ∧
    last.length = min 50 errors.length ∧
    ending = .raised (.execution (some code) ("\n".intercalate last))

namespace Streams

variable {d : Number} {errors outputs waiting : List String} {steps : List ProcessStep}
  {s t : Streams} {p : Host.Process}

theorem Accounts.accounted (h : Accounts d errors outputs steps waiting s) (ended : s.stage = .ended)
    (code : Int) : Accounted d errors outputs code s.told (verdict code s.tail) := by
  obtain ⟨hErrors, hOutputs, told⟩ := h.all_told ended
  rw [h.verdict_eq ended, told]
  refine {
    lines := by rw [lines_flatMap, hErrors]
    reports := by rw [reports_flatMap, hOutputs]
    others := fun v hv => ?_
    succeeds := ?_
    fails := fun failed => ⟨lastLines shownLines (errors.map withoutBreak), lastLines_suffix _ _,
      by rw [length_lastLines, List.length_map]; rfl, if_neg failed⟩ }
  · obtain ⟨step, -, hv⟩ := List.mem_flatMap.1 hv
    cases step <;> simp [eventsOf] at hv
  · unfold verdict
    split <;> simp_all

/-- Whenever the loop takes a line on the way to `t`, the lines of the error stream that have arrived
are told before the report of that line. This is told after those of the lines before it. -/
def Heeds (d : Number) (outputs : List String) (start t : Streams) : Prop :=
  ∀ s line rest, Runs d start s → s.stage = .listening → s.output = line :: rest →
    Runs d (s.take line rest) t →
    ∃ earlier pre post, outputs = earlier ++ line :: rest ∧
      t.told = pre ++ (reportOf d line).toList.map .progress ++ post ∧
      s.arrived <+: pre.filterMap EngineEvent.line? ∧
      pre.filterMap EngineEvent.report? = earlier.filterMap (reportOf d)

theorem Accounts.heeds {start : Streams} (opened : Accounts d errors outputs steps waiting start)
    (ended : t.stage = .ended) : Heeds d outputs start t := by
  intro s line rest before listening output run
  obtain ⟨more, _, h⟩ := opened.runs before
  clear opened before
  generalize steps ++ more = steps at h
  obtain ⟨more, waiting', books⟩ := h.runs (.head (.take listening output) run)
  obtain ⟨-, hOutputs, told⟩ := books.all_told ended
  -- the first line of the output among the later steps is the one that was taken
  have first : more.filterMap ProcessStep.output? = line :: rest := by
    have both := hOutputs.trans h.outputs.symm
    rw [List.filterMap_append, listening, output] at both
    exact List.append_cancel_left both
  obtain ⟨before, step, after, rfl, silent, hStep, -⟩ := List.filterMap_eq_cons_iff.1 first
  obtain rfl : step = .output line := by
    cases step <;> cases hStep
    rfl
  have quiet : before.filterMap ProcessStep.output? = [] := List.filterMap_eq_nil_iff.2 silent
  refine ⟨steps.filterMap ProcessStep.output?, (steps ++ before).flatMap (eventsOf d),
    after.flatMap (eventsOf d), ?_, ?_, ?_, ?_⟩
  · rw [← h.outputs, listening, output]
    rfl
  · rw [told]
    simp [eventsOf]
  · rw [h.arrived_eq, lines_flatMap, List.filterMap_append, List.map_append]
    exact List.prefix_append _ _
  · rw [reports_flatMap, List.filterMap_append, quiet, List.append_nil]

/-! ### Executions as runs -/

/-- The loop can pass on all lines at the head of the queue. -/
theorem passes : ∀ (lines : List String) (rest : List (Option String)) {s : Streams}, s.stage.Drains →
    s.queue = lines.map some ++ rest → ∃ tail, Runs d s
      { s with queue := rest, tail, told := s.told ++ lines.map .log }
  | [], rest, s, _, queue => ⟨s.tail, by
    rw [List.map_nil, List.append_nil, ← show s.queue = rest from queue]
    exact .refl⟩
  | line :: lines, rest, s, drains, queue => by
    have first : Step d s { s with
        queue := lines.map some ++ rest
        tail := lastLines keptLines (s.tail ++ [line])
        told := s.told ++ [.log line] } := .pass drains queue
    obtain ⟨tail, run⟩ := passes lines rest (s := { s with
      queue := lines.map some ++ rest
      tail := lastLines keptLines (s.tail ++ [line])
      told := s.told ++ [.log line] }) drains rfl
    refine ⟨tail, Relation.ReflTransGen.head first ?_⟩
    show Runs d _ _
    simpa using run

/-- The parties can come to know of the lines in any order. -/
theorem exists_run : ∀ (steps : List ProcessStep) (waiting : List String) {s : Streams},
    .hang ∉ steps → (∀ line, .output line ∈ steps → Parses d line) →
    s.unread = steps.filterMap ProcessStep.error? → s.output = steps.filterMap ProcessStep.output? →
    s.queue = waiting.map some → s.marked = false → s.stage = .listening →
    ∃ t, Runs d s t ∧ t.stage = .ended ∧
      t.told = s.told ++ (waiting.map .log ++ steps.flatMap (eventsOf d))
  | [], waiting, s, _, _, unread, output, queue, marked, stage => by
    have mark : Step d s { s with queue := s.queue ++ [none], marked := true } := .mark unread marked
    have close : Step d { s with queue := s.queue ++ [none], marked := true }
        { s with queue := s.queue ++ [none], marked := true, stage := .closing } :=
      .close stage output rfl
    obtain ⟨tail, run⟩ := passes (d := d) waiting [none] (s := { s with
      queue := s.queue ++ [none], marked := true, stage := .closing }) trivial (by rw [← queue])
    have finish : Step d { s with
        queue := [none], marked := true, stage := .closing, tail, told := s.told ++ waiting.map .log }
        { s with queue := [], marked := true, stage := .ended, tail
                 told := s.told ++ waiting.map .log } := .finish rfl rfl
    exact ⟨_, .head mark (.head close (run.tail finish)), rfl, by simp⟩
  | .hang :: _, _, _, running, _, _, _, _, _, _ => absurd (.head _) running
  | .error line :: rest, waiting, s, running, parses, unread, output, queue, marked, stage => by
    have put : Step d s { s with
        unread := rest.filterMap ProcessStep.error?
        queue := s.queue ++ [some (withoutBreak line)] } := .put unread
    obtain ⟨t, run, ended, told⟩ := exists_run rest (waiting ++ [withoutBreak line]) (s := { s with
      unread := rest.filterMap ProcessStep.error?
      queue := s.queue ++ [some (withoutBreak line)] }) (fun h => running (.tail _ h))
      (fun line h => parses line (.tail _ h)) rfl output (by rw [queue]; simp) marked stage
    exact ⟨t, .head put run, ended, by rw [told]; simp [eventsOf]⟩
  | .output line :: rest, waiting, s, running, parses, unread, output, queue, marked, stage => by
    obtain ⟨report, hp⟩ := parses line (.head _)
    have take : Step d s (s.take line (rest.filterMap ProcessStep.output?)) := .take stage output
    obtain ⟨tail, pass⟩ := passes (d := d) waiting [] (s := s.take line (rest.filterMap
      ProcessStep.output?)) trivial (by rw [List.append_nil]; exact queue)
    have turn : Step d { s.take line (rest.filterMap ProcessStep.output?) with
        queue := [], tail, told := s.told ++ waiting.map .log } { s with
        output := rest.filterMap ProcessStep.output?, queue := [], tail
        stage := .listening
        told := s.told ++ waiting.map .log ++ report.toList.map .progress } := .turn rfl rfl hp
    obtain ⟨t, run, ended, told⟩ := exists_run rest [] (s := { s with
      output := rest.filterMap ProcessStep.output?, queue := [], tail
      stage := .listening
      told := s.told ++ waiting.map .log ++ report.toList.map .progress })
      (fun h => running (.tail _ h)) (fun line h => parses line (.tail _ h)) unread rfl rfl marked rfl
    refine ⟨t, .head take (pass.trans (.head turn run)), ended, ?_⟩
    rw [told, List.flatMap_cons, eventsOf, reportOf_parsed hp]
    simp

/-- The executions of a program's lines, in whichever order they arrive, tell and end just as the two
parties can. -/
theorem told_iff_transcript (parses : ∀ line ∈ outputs, Parses d line) {told : List EngineEvent}
    {ending : Outcome Unit} :
    (∃ t, Runs d { unread := errors, output := outputs } t ∧ t.stage = .ended ∧ t.told = told ∧
        verdict p.script.code t.tail = ending) ↔
      ∃ steps, .hang ∉ steps ∧ steps.filterMap ProcessStep.error? = errors ∧
        steps.filterMap ProcessStep.output? = outputs ∧ (transcript p d {} steps).events = told ∧
        ∀ w, ((transcript p d {} steps).finish.run w).1 = ending := by
  have transcript_end {steps : List ProcessStep} (running : .hang ∉ steps)
      (parsed : ∀ line, .output line ∈ steps → Parses d line) (w : World LocalEngine) :
      ((transcript p d {} steps).finish.run w).1 = verdict p.script.code
        ((steps.filterMap ProcessStep.error?).map withoutBreak) := finish_transcript w _ _ running parsed
  constructor
  · rintro ⟨t, run, ended, rfl, rfl⟩
    obtain ⟨steps, waiting, books⟩ := (accounts_start errors outputs).runs run
    obtain ⟨hErrors, hOutputs, told⟩ := books.all_told ended
    refine ⟨_, books.running, hErrors, hOutputs, ?_, fun w => ?_⟩
    · rw [events_transcript _ _ books.running books.parsed, told]
      rfl
    · rw [transcript_end books.running books.parsed, books.verdict_eq ended, hErrors]
  · rintro ⟨steps, running, rfl, rfl, rfl, ends⟩
    have parsed (line : String) (h : .output line ∈ steps) : Parses d line :=
      parses line (List.mem_filterMap.2 ⟨_, h, rfl⟩)
    obtain ⟨t, run, ended, told⟩ := exists_run (d := d) steps [] (s := {
      unread := steps.filterMap ProcessStep.error?
      output := steps.filterMap ProcessStep.output? }) running parsed rfl rfl rfl rfl rfl
    obtain ⟨_, _, books⟩ := (accounts_start _ _).runs run
    refine ⟨t, run, ended, ?_, ?_⟩
    · rw [told, events_transcript _ _ running parsed]
      rfl
    · rw [books.verdict_eq ended, ← ends ⟨{}, { setup := {} }⟩, transcript_end running parsed]

end Streams

/-! ## Commands -/

/-- Asking for the length of an input starts no command. -/
theorem follows_inputDuration (arguments : List String) :
    (inputDuration arguments).Follows (.same fun w : World LocalEngine => w.host.processes) := by
  have entry (name : String) :
      (entryPath name).Follows (.same fun w : World LocalEngine => w.host.processes) := by
    refine .bind .get fun w => ?_
    split
    · exact .raise _
    · exact .ite (.pure _) (.raise _)
  refine .bind .get fun w => ?_
  split
  · exact .pure _
  · rename_i probe _
    refine .ite ?_ (.pure _)
    split
    · exact .raise _
    · refine .bind (entry _) fun path => .bind (.zoom (F := .same Host.processes) ?_ fun _ _ h => h)
        fun _ => .pure _
      exact probe.follows_duration path (fun _ _ _ => rfl) fun _ _ _ => rfl

/-- A command that was started executes the program's script, for the length of its input. -/
theorem execute_eq {arguments : List String} {w w' : World LocalEngine}
    {x : Execution (World LocalEngine) EngineEvent}
    (h : (execute arguments).run w = (.returned x, w')) :
    ∃ p d u u', p.script = (nextOf w.host.processes {}).1 ∧
      x = transcript p d {} p.script.steps ∧ u.engine = w.engine ∧
      u.host = { w.host with journal := u.host.journal } ∧
      (inputDuration arguments).run u = (.returned d, u') := by
  obtain ⟨program, _, ⟨⟩, h⟩ := Action.bind_returned h
  obtain ⟨_, u, hu, h⟩ := Action.bind_returned h
  obtain ⟨d, u', hd, h⟩ := Action.bind_returned h
  obtain ⟨_, _, ⟨⟩, h⟩ := Action.bind_returned h
  obtain ⟨p, v, hp, h⟩ := Action.bind_returned h
  obtain ⟨_, _, -, h⟩ := Action.bind_returned h
  cases h
  have logged : u.engine = w.engine ∧ u.host = { w.host with journal := u.host.journal } := by
    cases hu
    exact ⟨rfl, rfl⟩
  have processes : u'.host.processes = w.host.processes :=
    ((follows_inputDuration arguments).of_run hd).trans (by show u.host.processes = _; rw [logged.2])
  obtain ⟨h', hp, -⟩ := Action.zoom_eq (x := Host.start _ _) hp
  refine ⟨p, d, u, u', ?_, rfl, logged.1, logged.2, hd⟩
  rw [(Host.start_returned hp).2, ← processes]
  rfl

/-- Once a command has been started, let its program end and no failure arise from a line of its
output. Whichever way the reader of the error stream and the loop over the output take turns, they
come to an end; then every line is accounted for, and the loop has heeded the lines of the error
stream that had arrived. The execution that was started is one of these runs. -/
theorem execute_accounted {arguments : List String} {w w' : World LocalEngine}
    {x : Execution (World LocalEngine) EngineEvent}
    (started : (execute arguments).run w = (.returned x, w')) :
    ∃ script d u u', script = (nextOf w.host.processes {}).1 ∧ u.engine = w.engine ∧
      u.host = { w.host with journal := u.host.journal } ∧
      (inputDuration arguments).run u = (.returned d, u') ∧
      (.hang ∉ script.steps → (∀ line, .output line ∈ script.steps → Parses d line) →
        let errors := script.steps.filterMap ProcessStep.error?
        let outputs := script.steps.filterMap ProcessStep.output?
        let start : Streams := { unread := errors, output := outputs }
        (Acc (fun t s => Streams.Step d s t) start ∧
          ∀ s, Streams.Runs d start s → s.stage = .ended ∨ ∃ t, Streams.Step d s t) ∧
        (∀ t, Streams.Runs d start t → t.stage = .ended →
          Accounted d errors outputs script.code t.told (verdict script.code t.tail) ∧
          Streams.Heeds d outputs start t) ∧
        ∃ t, Streams.Runs d start t ∧ t.stage = .ended ∧ t.told = x.events ∧
          ∀ v, (x.finish.run v).1 = verdict script.code t.tail) := by
  obtain ⟨p, d, u, u', hp, rfl, hEngine, hHost, hd⟩ := execute_eq started
  refine ⟨p.script, d, u, u', hp, hEngine, hHost, hd, fun running parses => ?_⟩
  have parsed : ∀ line ∈ p.script.steps.filterMap ProcessStep.output?, Parses d line := by
    intro line h
    obtain ⟨step, hm, hs⟩ := List.mem_filterMap.1 h
    cases step <;> cases hs
    exact parses _ hm
  have opened := Streams.accounts_start (d := d) (p.script.steps.filterMap ProcessStep.error?)
    (p.script.steps.filterMap ProcessStep.output?)
  refine ⟨⟨Streams.accessible d _, fun s run => ?_⟩, fun t run ended => ⟨?_, opened.heeds ended⟩, ?_⟩
  · obtain ⟨_, _, books⟩ := opened.runs run
    exact books.next parsed
  · obtain ⟨_, _, books⟩ := opened.runs run
    exact books.accounted ended _
  · obtain ⟨t, run, ended, told, ends⟩ := (Streams.told_iff_transcript (p := p) parsed).2
      ⟨_, running, rfl, rfl, rfl, fun w => finish_transcript w _ _ running parses⟩
    exact ⟨t, run, ended, told, fun v => by rw [ends, finish_transcript v _ _ running parses]⟩

/-- A loaded engine on a host where the next program writes on both streams and fails. -/
def beforeFailure : World LocalEngine where
  host := { processes := [{
    steps := [.error "Input #0\n", .output "frame=1\n", .error "Stream mapping\n",
      .output "progress=end\n", .error "Conversion failed!\n"]
    code := 1 }] }
  engine := { setup := {}, directory := some (.ofString "work"), loaded := true }

/-- Whatever the order in which its lines are taken, the failure shows all three of its error stream. -/
theorem beforeFailure_accounted : ∃ x w', (execute ["out.mp4"]).run beforeFailure = (.returned x, w') ∧
    x.events.filterMap EngineEvent.line? = ["Input #0", "Stream mapping", "Conversion failed!"] ∧
    (x.events.filterMap EngineEvent.report?).length = 1 ∧ ∀ v, (x.finish.run v).1 =
      .raised (.execution (some 1) "Input #0\nStream mapping\nConversion failed!") := by
  refine ⟨_, _, rfl, ?_⟩
  obtain ⟨script, d, u, u', rfl, hEngine, -, hd, accounted⟩ := execute_accounted
    (show (execute ["out.mp4"]).run beforeFailure = (.returned _, _) from rfl)
  have unprobed : d = .real (.zero false) := by
    obtain ⟨_, _, ⟨⟩, hd⟩ := Action.bind_returned hd
    rw [hEngine] at hd
    cases hd
    rfl
  subst unprobed
  have parses : ∀ line, .output line ∈ (nextOf beforeFailure.host.processes {}).1.steps →
      Parses (.real (.zero false)) line := by
    intro line h
    simp [beforeFailure, nextOf] at h
    rcases h with rfl | rfl
    · exact ⟨none, rfl⟩
    · exact ⟨_, rfl⟩
  obtain ⟨-, ended, t, run, hEnded, told, finish⟩ := accounted (by decide) parses
  have books := (ended t run hEnded).1
  refine ⟨by rw [← told, books.lines]; rfl, by rw [← told, books.reports]; rfl, fun v => ?_⟩
  obtain ⟨last, suffix, length, failure⟩ := books.fails (by decide)
  rw [finish v, failure, suffix.eq_of_length length]
  rfl

end LocalEngine

end VideoExport
