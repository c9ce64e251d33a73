import VideoExport.Proofs.Evolution

/-!
# Actions that end

`x.Responds`: no run of `x` stalls. `x.Ends P`: no run from a state with `P` stalls, and its last
state has `P` again, so that what a run relies on is still there for what comes next. A limit makes a
call end even if what is called stalls (`Deadline.ends_call`), and so it is with an execution that is
handed over (`Deadline.ends_relay`).
-/

set_option autoImplicit false

namespace VideoExport

namespace Evolution

variable {ω : Type}

/-- What has `P` keeps it. -/
def keeping (P : ω → Prop) : Evolution ω where
  Holds s t := P s → P t
  refl _ := id
  trans h₁ h₂ h := h₂ (h₁ h)

end Evolution

namespace Action

variable {ω ω' α β : Type}

/-- No run of `x` stalls. -/
def Responds (x : Action ω α) : Prop := ∀ s, (x.run s).1 ≠ .stalled

/-- Every run of `x` from a state with `P` ends, in a state with `P`. -/
def Ends (x : Action ω α) (P : ω → Prop) : Prop :=
  ∀ s, P s → (x.run s).1 ≠ .stalled ∧ P (x.run s).2

variable {P : ω → Prop}

theorem Ends.pure (a : α) : (Pure.pure a : Action ω α).Ends P := fun _ hs => ⟨nofun, hs⟩

theorem Ends.read (f : ω → α) : (Action.read f).Ends P := fun _ hs => ⟨nofun, hs⟩

theorem Ends.modify {f : ω → ω} (h : ∀ s, P s → P (f s)) : (Action.modify f).Ends P :=
  fun s hs => ⟨nofun, h s hs⟩

theorem Ends.raise (f : Failure) : (Action.raise f : Action ω α).Ends P := fun _ hs => ⟨nofun, hs⟩

theorem Ends.ofExcept : ∀ x : Except Failure α, (Action.ofExcept x : Action ω α).Ends P
  | .ok a => .pure a
  | .error f => .raise f

theorem Ends.ofNumeric (x : Except NumericError α) : (Action.ofNumeric x : Action ω α).Ends P :=
  .ofExcept _

theorem Ends.bind {x : Action ω α} {k : α → Action ω β} (hx : x.Ends P)
    (hk : ∀ a, (k a).Ends P) : (x >>= k).Ends P := by
  intro s hs
  obtain ⟨ends, hP⟩ := hx s hs
  rw [run_bind]
  rcases h : x.run s with ⟨a | f | _, t⟩ <;> rw [h] at ends hP
  · exact hk a t hP
  · exact ⟨nofun, hP⟩
  · exact absurd rfl ends

/-- What is asked of the state has `P`. -/
theorem Ends.get_bind {k : ω → Action ω α} (hk : ∀ s, P s → (k s).Ends P) :
    (Action.get >>= k).Ends P := fun s hs => hk s hs s hs

theorem Ends.attempt {x : Action ω α} (hx : x.Ends P) : x.attempt.Ends P := by
  intro s hs
  obtain ⟨ends, hP⟩ := hx s hs
  rw [run_attempt]
  rcases h : x.run s with ⟨a | f | _, t⟩ <;> rw [h] at ends hP
  · exact ⟨nofun, hP⟩
  · exact ⟨nofun, hP⟩
  · exact absurd rfl ends

/-- The end of an action can be seen even if it is that it stalls. -/
theorem Ends.observe {x : Action ω α} (hx : x.Follows (.keeping P)) : x.observe.Ends P :=
  fun s hs => ⟨nofun, hx s hs⟩

theorem Ends.ensuring {x : Action ω α} {last : Action ω Unit} (hx : x.Ends P)
    (hl : last.Ends P) : (x.ensuring last).Ends P :=
  .bind hx.attempt fun o => .bind hl fun _ => .ofExcept o

theorem Ends.ite {c : Prop} [Decidable c] {x y : Action ω α} (hx : x.Ends P) (hy : y.Ends P) :
    (if c then x else y).Ends P := by
  split
  · exact hx
  · exact hy

theorem Ends.zoom {part : ω → ω'} {put : ω → ω' → ω} {x : Action ω' α} (hx : x.Responds)
    (h : ∀ s t, P s → P (put s t)) : (Action.zoom part put x).Ends P := by
  intro s hs
  rw [run_zoom]
  exact ⟨hx _, h s _ hs⟩

/-! ## Responding -/

/-- To respond is to end from every state. -/
theorem responds_iff {x : Action ω α} : x.Responds ↔ x.Ends fun _ => True :=
  ⟨fun h s _ => ⟨h s, trivial⟩, fun h s => (h s trivial).1⟩

end Action

namespace Deadline

variable {ω ε α : Type} {P : ω → Prop} {x : Action ω α}

theorem ends_unstalled {operation : TimedOperation} {limit : Number}
    (hx : x.Follows (.keeping P)) : (unstalled operation limit x).Ends P := by
  refine .bind (.observe hx) fun o => ?_
  cases o with
  | returned a => exact .pure a
  | raised f => exact .raise f
  | stalled => exact .raise _

/-- Events that are handed over one by one come to an end if every part does. -/
theorem ends_handOver {wait last : Action ω Unit} {handle : ε → Action ω Demand}
    (hw : wait.Ends P) (hh : ∀ a, (handle a).Ends P) (hl : last.Ends P) :
    ∀ (ms : List (Emission ω ε)) (close : ω → ω), (∀ m ∈ ms, ∀ s, P s → P (m.before s)) →
      (∀ m ∈ ms, ∀ s, P s → P (m.close s)) → (∀ s, P s → P (close s)) →
      (handOver wait handle last ms close).Ends P
  | [], close, _, _, hc => by
    refine .bind hw.attempt fun o => ?_
    cases o with
    | ok _ => exact hl
    | error f => exact .bind (.modify hc) fun _ => .raise f
  | m :: rest, close, hbs, hcs, hc => by
    have hm : ∀ s, P s → P (m.close s) := hcs m (.head _)
    refine .bind hw.attempt fun o => ?_
    cases o with
    | error f => exact .bind (.modify hc) fun _ => .raise f
    | ok _ =>
      refine .bind (.modify (hbs m (.head _))) fun _ => .bind (hh m.event).attempt fun d => ?_
      match d with
      | .error f => exact .bind (.modify hm) fun _ => .raise f
      | .ok .enough => exact .modify hm
      | .ok .more =>
        exact ends_handOver hw hh hl rest m.close (fun m' h => hbs m' (.tail _ h))
          (fun m' h => hcs m' (.tail _ h)) hm

variable [Hosted ω]

theorem ends_check {operation : TimedOperation} {limit deadline : Number} :
    (check operation limit deadline : Action ω Unit).Ends P :=
  .bind (.read _) fun _ => .bind (.ofNumeric _) fun _ => .ite (.raise _) (.pure _)

/-- A call ends if what is called does, or if there is a limit. -/
theorem ends_call {limit : Option Number} {operation : TimedOperation}
    (hx : x.Follows (.keeping P)) (ends : x.Ends P ∨ (limit? limit).isSome = true)
    (hn : ∀ n, (noteAbandoned n : Action ω Unit).Ends P) : (call limit operation x).Ends P := by
  unfold call
  cases hl : limit? limit with
  | none =>
    rw [hl] at ends
    exact ends.resolve_right nofun
  | some n =>
    refine .bind (.observe hx) fun o => ?_
    cases o with
    | returned a => exact .pure a
    | raised f => exact .ite (.bind (hn n) fun _ => .raise _) (.raise f)
    | stalled => exact .bind (hn n) fun _ => .raise _

/-- An execution that is handed over ends if starting it and its end do, or if there is a limit. -/
theorem ends_relay {limit : Option Number} {operation : TimedOperation}
    {start : Action ω (Execution ω ε)} {handle : ε → Action ω Demand}
    (hs : start.Follows (.keeping P))
    (hx : ∀ s x t, start.run s = (.returned x, t) → x.Follows (.keeping P))
    (ends : (start.Ends P ∧ ∀ s x t, start.run s = (.returned x, t) → x.finish.Ends P) ∨
      (limit? limit).isSome = true)
    (hh : ∀ a, (handle a).Ends P) : (relay limit operation start handle).Ends P := by
  -- an execution is only known once it has been started
  have bound {wait : Action ω Unit} {first : Action ω (Execution ω ε)}
      {finish : Execution ω ε → Action ω Unit} (hw : wait.Ends P) (hf : first.Ends P)
      (hx : ∀ s x t, first.run s = (.returned x, t) → x.Follows (.keeping P) ∧ (finish x).Ends P) :
      (first >>= fun x => handOver wait handle (finish x) x.emissions id).Ends P := by
    intro s hs
    obtain ⟨ends, hP⟩ := hf s hs
    rw [Action.run_bind]
    rcases h : first.run s with ⟨x | f | _, t⟩ <;> rw [h] at ends hP
    · obtain ⟨follows, finishes⟩ := hx s x t h
      exact ends_handOver hw hh finishes _ _ follows.before follows.close (fun _ => id) t hP
    · exact ⟨nofun, hP⟩
    · exact absurd rfl ends
  unfold relay
  cases hl : limit? limit with
  | none =>
    rw [hl] at ends
    obtain ⟨starts, finishes⟩ := ends.resolve_right nofun
    exact bound (.pure _) starts fun s x t h => ⟨hx s x t h, finishes s x t h⟩
  | some n =>
    refine .bind (.read _) fun _ => .bind (.ofNumeric _) fun _ => .bind ends_check fun _ => ?_
    refine bound ends_check (ends_unstalled hs) fun s x t h => ?_
    have follows := hx s x t (unstalled_returned h)
    exact ⟨follows, ends_unstalled follows.finish⟩

end Deadline

end VideoExport
