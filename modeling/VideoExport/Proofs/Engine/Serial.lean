import VideoExport.Proofs.Engine.Recording

/-!
# One execution at a time

`Serial busy steps`: no command of the steps is executed while the execution of another is in
progress, which it is until it delivers its end or the engine is reset. Steps that start at most one
command are serial on an engine that is idle (`serial_of_starts`). `serially` says so of the steps
that a record goes on by.
-/

set_option autoImplicit false

namespace VideoExport

variable {σ : Type}

/-! ## Serial records -/

/-- The act starts a command. -/
def EngineAct.Executes (act : EngineAct) : Prop := ∃ arguments, act = .execute arguments

instance (act : EngineAct) : Decidable act.Executes :=
  match act with
  | .execute arguments => .isTrue ⟨arguments, rfl⟩
  | .load | .reset | .write _ _ | .read _ | .delete _ | .emit _ | .close _ | .finish _ =>
    .isFalse fun ⟨_, h⟩ => nomatch h

/-- No command is executed while an execution is in progress; `busy` tells whether one is at first. -/
def Serial : Bool → List (EngineStep σ) → Prop
  | _, [] => True
  | busy, c :: rest => (c.act.Executes → busy = false) ∧ Serial (c.progress busy) rest

instance decidableSerial : (busy : Bool) → (steps : List (EngineStep σ)) →
    Decidable (Serial busy steps)
  | _, [] => .isTrue trivial
  | busy, c :: rest =>
    have := decidableSerial (c.progress busy) rest
    inferInstanceAs (Decidable ((c.act.Executes → busy = false) ∧ Serial (c.progress busy) rest))

theorem serial_append : ∀ {busy : Bool} {a b : List (EngineStep σ)},
    Serial busy (a ++ b) ↔ Serial busy a ∧ Serial (a.foldl EngineStep.progress busy) b
  | _, [], _ => by simp [Serial]
  | busy, c :: a, b => by
    simp only [List.cons_append, Serial, List.foldl_cons, serial_append (a := a), and_assoc]

theorem inProgress_append (a b : List (EngineStep σ)) :
    inProgress (a ++ b) = b.foldl EngineStep.progress (inProgress a) := List.foldl_append

theorem EngineStep.progress_quiet {c : EngineStep σ} (h : ¬ c.act.Executes) :
    c.progress false = false := by
  obtain ⟨act, before, result, after⟩ := c
  cases act with
  | execute arguments => exact absurd ⟨arguments, rfl⟩ h
  | _ => cases result <;> rfl

/-- The act neither belongs to the execution of a command nor ends one. -/
def EngineAct.Plain : EngineAct → Prop
  | .load | .write _ _ | .read _ | .delete _ => True
  | _ => False

theorem EngineAct.Plain.quiet {act : EngineAct} (h : act.Plain) : ¬ act.Executes := by
  rintro ⟨_, rfl⟩
  exact h

/-- To hand over an execution, or to close or finish it, is not to start one. -/
theorem EngineAct.IsOf.quiet {act : EngineAct} {arguments : List String} (h : act.IsOf arguments) :
    ¬ act.Executes := by
  rintro ⟨_, rfl⟩
  rcases h with h | h | h <;> cases h

theorem EngineStep.progress_plain {c : EngineStep σ} {busy : Bool} (h : c.act.Plain) :
    c.progress busy = busy := by
  obtain ⟨act, before, result, after⟩ := c
  cases act <;> cases result <;> first | rfl | exact absurd h id

/-- Without a start of a command, nothing comes into progress. -/
theorem foldl_quiet : ∀ {a : List (EngineStep σ)}, (∀ c ∈ a, ¬ c.act.Executes) →
    a.foldl EngineStep.progress false = false
  | [], _ => rfl
  | c :: a, h => by
    rw [List.foldl_cons, EngineStep.progress_quiet (h c (.head _))]
    exact foldl_quiet fun d hd => h d (.tail _ hd)

theorem serial_quiet : ∀ {busy : Bool} {a : List (EngineStep σ)}, (∀ c ∈ a, ¬ c.act.Executes) →
    Serial busy a
  | _, [], _ => trivial
  | _, c :: _, h =>
    ⟨fun he => absurd he (h c (.head _)), serial_quiet fun d hd => h d (.tail _ hd)⟩

theorem foldl_plain : ∀ {busy : Bool} {a : List (EngineStep σ)}, (∀ c ∈ a, c.act.Plain) →
    a.foldl EngineStep.progress busy = busy
  | _, [], _ => rfl
  | busy, c :: a, h => by
    rw [List.foldl_cons, EngineStep.progress_plain (h c (.head _))]
    exact foldl_plain fun d hd => h d (.tail _ hd)

/-! ## Starts -/

/-- Only the first of the steps may start a command. -/
def StartsFirst (new : List (EngineStep σ)) : Prop := ∀ c ∈ new.tail, ¬ c.act.Executes

/-- How many commands the steps start. -/
def starts (steps : List (EngineStep σ)) : Nat := steps.countP fun c => decide c.act.Executes

theorem starts_append (a b : List (EngineStep σ)) : starts (a ++ b) = starts a + starts b :=
  List.countP_append

theorem starts_eq_zero {a : List (EngineStep σ)} : starts a = 0 ↔ ∀ c ∈ a, ¬ c.act.Executes := by
  simp [starts, List.countP_eq_zero]

theorem StartsFirst.starts_le : ∀ {new : List (EngineStep σ)}, StartsFirst new → starts new ≤ 1
  | [], _ => Nat.zero_le 1
  | c :: rest, h => by
    have none : starts rest = 0 := starts_eq_zero.2 h
    rw [← List.singleton_append, starts_append, none]
    exact List.countP_le_length

theorem serial_of_starts : ∀ {a : List (EngineStep σ)}, starts a ≤ 1 → Serial false a
  | [], _ => trivial
  | c :: a, h => by
    refine ⟨fun _ => rfl, ?_⟩
    by_cases hc : c.act.Executes
    · have none : starts a = 0 := by
        simp only [starts, List.countP_cons, hc, decide_true, if_true] at h
        exact Nat.le_zero.1 (Nat.le_of_succ_le_succ h)
      exact serial_quiet (starts_eq_zero.1 none)
    · rw [EngineStep.progress_quiet hc]
      simp only [starts, List.countP_cons, hc, decide_false] at h
      exact serial_of_starts h

/-! ## As evolutions -/

/-- A record goes on without two executions at once. -/
def serially : Evolution (World (Recorded σ)) where
  Holds w w' := ∃ new, w'.engine.steps = w.engine.steps ++ new ∧
    Serial (inProgress w.engine.steps) new
  refl w := ⟨[], (List.append_nil _).symm, trivial⟩
  trans := by
    rintro w w' w'' ⟨a, ha, sa⟩ ⟨b, hb, sb⟩
    refine ⟨a ++ b, by rw [hb, ha, List.append_assoc], serial_append.2 ⟨sa, ?_⟩⟩
    rwa [ha, inProgress_append] at sb

section
variable {e : Engine σ} {S : HostFrame} {w w' : World (Recorded σ)}

theorem serially_of_quiet (h : traced e S (¬ ·.Executes) w w') : serially w w' := by
  obtain ⟨new, hs, hq⟩ := h
  exact ⟨new, hs.steps, serial_quiet hq⟩

theorem idle_of_quiet (h : traced e S (¬ ·.Executes) w w')
    (idle : inProgress w.engine.steps = false) : inProgress w'.engine.steps = false := by
  obtain ⟨new, hs, hq⟩ := h
  rw [hs.steps, inProgress_append, idle, foldl_quiet hq]

theorem quiet_of_plain (h : traced e S EngineAct.Plain w w') : traced e S (¬ ·.Executes) w w' :=
  traced_mono h fun _ h => h.quiet

end

end VideoExport
