import VideoExport.Proofs.Engine.Lines
import VideoExport.Proofs.Progress.Lines

/-!
# What the output of a program may say

A local engine reads each line of a program's output as progress for a source of some length. Whatever
the lines are, they make no more than reports of ratios, and an execution goes on to the end of its
program, unless a line tells a time beyond the binary64 range: then the program is killed, and the
execution fails (`LocalEngine.output_read`).
-/

set_option autoImplicit false

namespace VideoExport.LocalEngine

open Progress (Oversized Unreadable parseLine)

/-- A line of the output without the blanks around it. -/
def bareLine (line : String) : String := String.ofList (Text.strip line.toList)

variable {p : Host.Process} {d : Number}

theorem parses_iff (finite : d.isFinite = true) (line : String) :
    Parses d line ↔ ¬ Unreadable (bareLine line) := by
  rcases Progress.parseLine_cases finite (bareLine line) with
    ⟨unreadable, failed⟩ | ⟨readable, report, made, -⟩
  · refine iff_of_false (fun ⟨report, made⟩ => ?_) (not_not_intro unreadable)
    cases failed.symm.trans made
  · exact iff_of_true ⟨report, made⟩ readable

/-- At an unreadable line the program is killed, and its execution fails. -/
theorem finish_unreadable (finite : d.isFinite = true) (w : World LocalEngine) :
    ∀ (r : Reading) (steps : List ProcessStep), .hang ∉ steps →
    (∃ line, .output line ∈ steps ∧ Unreadable (bareLine line)) →
    (transcript p d r steps).finish.run w =
      (.raised (.numeric .quotientTooLarge), killProcess p.number w)
  | _, [], _, ⟨_, mem, _⟩ => absurd mem List.not_mem_nil
  | _, .hang :: _, running, _ => absurd (.head _) running
  | r, .error line :: rest, running, ⟨line', mem, unreadable⟩ => by
    rw [transcript]
    refine finish_unreadable finite w _ rest (fun h => running (.tail _ h)) ⟨line', ?_, unreadable⟩
    simpa using mem
  | r, .output line :: rest, running, ⟨line', mem, unreadable⟩ => by
    rw [transcript]
    dsimp only
    rcases Progress.parseLine_cases finite (bareLine line) with ⟨-, failed⟩ | ⟨readable, made, hm, -⟩
    · rw [bareLine] at failed
      rw [failed]
      rfl
    · have later : .output line' ∈ rest := by
        rcases List.mem_cons.1 mem with same | mem
        · cases same
          exact absurd unreadable readable
        · exact mem
      rw [bareLine] at hm
      rw [hm]
      exact finish_unreadable finite w _ rest (fun h => running (.tail _ h)) ⟨line', later, unreadable⟩

/-- Every line of the output is read as progress for a length `d`, and only an unreadable one ends the
execution of a program before its end. -/
theorem output_read (finite : d.isFinite = true) : (∀ line, Progress.Reads d line) ∧
    ∀ (p : Host.Process) (r : Reading) (steps : List ProcessStep) (w : World LocalEngine),
      .hang ∉ steps →
      ((∀ line, .output line ∈ steps → ¬ Unreadable (bareLine line)) →
        (transcript p d r steps).events = r.waiting.map .log ++ steps.flatMap (eventsOf d) ∧
        ((transcript p d r steps).finish.run w).1 = verdict p.script.code
          (r.passed ++ r.waiting ++ (steps.filterMap ProcessStep.error?).map withoutBreak)) ∧
      ((∃ line, .output line ∈ steps ∧ Unreadable (bareLine line)) →
        (transcript p d r steps).finish.run w =
          (.raised (.numeric .quotientTooLarge), killProcess p.number w)) := by
  refine ⟨Progress.reads finite, fun p r steps w running => ⟨fun readable => ?_, fun unreadable => ?_⟩⟩
  · have parses : ∀ line, .output line ∈ steps → Parses d line :=
      fun line mem => (parses_iff finite line).2 (readable line mem)
    exact ⟨events_transcript r steps running parses, finish_transcript w r steps running parses⟩
  · exact finish_unreadable finite w r steps running unreadable

/-- A time far beyond the range. -/
def endless : Nat := 10 ^ 400

/-- A program that tells half of ten seconds, and then that time. -/
def endlessProgram : Host.Process where
  number := 0
  command := ["ffmpeg"]
  directory := "work"
  script := { steps := [.error "Stream mapping", .output (Progress.timeLine 5000000),
    .output (Progress.timeLine endless)] }

theorem oversized_endless : Oversized endless :=
  Progress.oversized_iff.2 (by decide +kernel)

theorem unreadable_endless : Unreadable (Progress.timeLine endless) :=
  (Progress.unreadable_timeLine (by decide +kernel)).2 oversized_endless

/-- The engine while the program runs. -/
def whileRunning : World LocalEngine where
  host := { killed := [false] }
  engine := { setup := {}, process := some 0 }

/-- Half of ten seconds is shown as a half, and after it the program is killed. -/
theorem endlessProgram_read : (10 : Number).isFinite = true ∧
    (∃ report x, parseLine (Progress.timeLine 5000000) 10 = .ok (some report) ∧
      Progress.normalize (Progress.eventNumber? (.progress report)) = .ok x ∧
      Number.real x = .decimal 5 1) ∧
    (transcript endlessProgram 10 {} endlessProgram.script.steps).finish.run whileRunning =
      (.raised (.numeric .quotientTooLarge), killProcess 0 whileRunning) := by
  have finite : (10 : Number).isFinite = true := by decide +kernel
  refine ⟨finite, ?_, ?_⟩
  · obtain ⟨q, report, x, quotient, -, made, shown, nearest⟩ :=
      ((output_read finite).1 _).measured 5000000 (Progress.ofText?_timeLine (by decide +kernel))
        (mt Progress.oversized_iff.1 (by decide +kernel)) (by decide +kernel)
    have half : (Progress.seconds 5000000 >>= fun time => time.div 10) = .ok (.decimal 5 1) := by
      decide +kernel
    cases quotient.symm.trans half
    exact ⟨report, x, made, shown,
      congrArg Number.real (nearest.inside (by decide +kernel) (by decide +kernel))⟩
  · have running : ProcessStep.hang ∉ endlessProgram.script.steps := by simp [endlessProgram]
    refine ((output_read finite).2 endlessProgram {} _ _ running).2
      ⟨Progress.timeLine endless, by simp [endlessProgram], ?_⟩
    rw [bareLine, Progress.strip_timeLine, String.ofList_toList]
    exact unreadable_endless

/-- Not every line is read without a failure. -/
theorem endless_fails : (10 : Number).isFinite = true ∧ Number.le 0 10 = true ∧
    parseLine (Progress.timeLine endless) 10 = .error .quotientTooLarge :=
  ⟨by decide +kernel, by decide +kernel,
    Progress.parseLine_oversized (Progress.ofText?_timeLine (by decide +kernel)) oversized_endless⟩

end VideoExport.LocalEngine
