import VideoExport.Proofs.Simulation

/-!
# Couplings

Two runs from states that agree in what matters. `x.Couples P R Q y`: from states that `P` relates, `x`
and `y` end alike, with values that `R` relates, in states that `Q` relates. `x.Agrees P y` is the case
of equal values and of one relation, which the runs keep. What agrees is found along the way in which an
action is put together, up to executions that are handed over within a limit (`Deadline.agrees_relay`).
`x.Always P o Q`: from states with `P`, every run of `x` ends in `o`, in a state with `Q`.
-/

set_option autoImplicit false

namespace VideoExport

/-- The end of an attempt. -/
def Outcome.attempted {α : Type} : Outcome α → Outcome (Except Failure α)
  | .returned a => .returned (.ok a)
  | .raised f => .returned (.error f)
  | .stalled => .stalled

namespace Action

variable {ω ω' α β α' β' : Type}

/-! ## Two runs -/

/-- From states that `P` relates, `x` and `y` end alike, in states that `Q` relates. -/
def Couples (P : ω → ω → Prop) (R : α → β → Prop) (Q : ω → ω → Prop) (x : Action ω α)
    (y : Action ω β) : Prop :=
  ∀ s t, P s t → Outcome.Alike R (x.run s).1 (y.run t).1 ∧ Q (x.run s).2 (y.run t).2

/-- Two runs from states that `P` relates end with equal values, in states that `P` relates. -/
def Agrees (P : ω → ω → Prop) (x y : Action ω α) : Prop := x.Couples P Eq P y

variable {P : ω → ω → Prop} {R : α → β → Prop} {R' : α' → β' → Prop}

theorem Couples.bind {x : Action ω α} {y : Action ω β} {k : α → Action ω α'} {l : β → Action ω β'}
    (hx : x.Couples P R P y) (hk : ∀ a b, R a b → (k a).Couples P R' P (l b)) :
    (x >>= k).Couples P R' P (y >>= l) := Simulates.bind hx hk

/-- What is known of the values that `x` returns holds of those that are related. -/
theorem Couples.returned {x : Action ω α} {y : Action ω β} (hx : x.Couples P R P y) :
    x.Couples P (fun a b => R a b ∧ ∃ s s', x.run s = (.returned a, s')) P y := by
  intro s t hs
  obtain ⟨alike, state⟩ := hx s t hs
  rcases h : x.run s with ⟨a | g | _, s'⟩ <;> rcases h' : y.run t with ⟨b | g' | _, t'⟩ <;>
    rw [h, h'] at alike <;> rw [h, h'] at state <;> try exact ⟨alike, state⟩
  exact ⟨⟨alike, s, s', h⟩, state⟩

section
variable {x y : Action ω α}

theorem Agrees.run_eq (h : x.Agrees P y) {s t : ω} (hs : P s t) :
    (x.run s).1 = (y.run t).1 ∧ P (x.run s).2 (y.run t).2 := Mirrors.run_eq h hs

theorem Agrees.pure (a : α) : (Pure.pure a : Action ω α).Agrees P (Pure.pure a) := Mirrors.pure a

theorem Agrees.raise (f : Failure) : (Action.raise f : Action ω α).Agrees P (Action.raise f) :=
  Mirrors.raise f

theorem Agrees.stall : (Action.stall : Action ω α).Agrees P Action.stall :=
  fun _ _ hs => ⟨trivial, hs⟩

theorem Agrees.read {f g : ω → α} (h : ∀ s t, P s t → f s = g t) :
    (Action.read f).Agrees P (Action.read g) := Mirrors.read h

theorem Agrees.modify {f g : ω → ω} (h : ∀ s t, P s t → P (f s) (g t)) :
    (Action.modify f).Agrees P (Action.modify g) := Mirrors.modify h

theorem Agrees.ofExcept (r : Except Failure α) :
    (Action.ofExcept r : Action ω α).Agrees P (Action.ofExcept r) := Mirrors.ofExcept r

theorem Agrees.ofNumeric (r : Except NumericError α) :
    (Action.ofNumeric r : Action ω α).Agrees P (Action.ofNumeric r) := .ofExcept _

theorem Agrees.bind {k l : α → Action ω β} (hx : x.Agrees P y) (hk : ∀ a, (k a).Agrees P (l a)) :
    (x >>= k).Agrees P (y >>= l) := Mirrors.bind hx hk

/-- What is asked of two related states may differ, if what comes next agrees. -/
theorem Agrees.get_bind {k l : ω → Action ω α} (hk : ∀ s t, P s t → (k s).Agrees P (l t)) :
    (Action.get >>= k).Agrees P (Action.get >>= l) := Mirrors.get_bind hk

theorem Agrees.ite {c : Prop} [Decidable c] {x' y' : Action ω α} (hx : x.Agrees P y)
    (hx' : x'.Agrees P y') : (if c then x else x').Agrees P (if c then y else y') := Mirrors.ite hx hx'

theorem Agrees.attempt (hx : x.Agrees P y) : x.attempt.Agrees P y.attempt := Mirrors.attempt hx

theorem Agrees.ensuring {last last' : Action ω Unit} (hx : x.Agrees P y) (hl : last.Agrees P last') :
    (x.ensuring last).Agrees P (y.ensuring last') := Mirrors.ensuring hx hl

end

/-- Work on a part couples if it does on the part, and what it makes of the part keeps the whole. -/
theorem Couples.zoom {P' : ω' → ω' → Prop} {part : ω → ω'} {put : ω → ω' → ω} {x : Action ω' α}
    {y : Action ω' β} (hx : x.Couples P' R P' y) (hp : ∀ s t, P s t → P' (part s) (part t))
    (hq : ∀ s t u v, P s t → P' u v → P (put s u) (put t v)) :
    (Action.zoom part put x).Couples P R P (Action.zoom part put y) := Simulates.zoom hx hp hq

/-! ## Runs that always end in one way -/

/-- From states with `P`, every run of `x` ends in the same way, in a state with `Q`. -/
def Always (x : Action ω α) (P : ω → Prop) (o : Outcome α) (Q : ω → Prop) : Prop :=
  ∀ s, P s → (x.run s).1 = o ∧ Q (x.run s).2

section
variable {P Q S : ω → Prop} {x : Action ω α} {k : α → Action ω β} {o : Outcome α} {o' : Outcome β}

theorem Always.run (h : x.Always P o Q) {s : ω} (hs : P s) : x.run s = (o, (x.run s).2) ∧ Q (x.run s).2 :=
  ⟨Prod.ext (h s hs).1 rfl, (h s hs).2⟩

theorem Always.pure (a : α) : (Pure.pure a : Action ω α).Always P (.returned a) P := fun _ hs => ⟨rfl, hs⟩

theorem Always.modify {f : ω → ω} (h : ∀ s, P s → Q (f s)) : (Action.modify f).Always P (.returned ()) Q :=
  fun s hs => ⟨rfl, h s hs⟩

theorem Always.bind {a : α} (hx : x.Always P (.returned a) Q) (hk : (k a).Always Q o' S) :
    (x >>= k).Always P o' S := by
  intro s hs
  obtain ⟨ran, after⟩ := hx.run hs
  rw [run_bind_of_returned ran]
  exact hk _ after

theorem Always.bind_raised {f : Failure} (hx : x.Always P (.raised f) Q) :
    (x >>= k).Always P (.raised f) Q := by
  intro s hs
  obtain ⟨ran, after⟩ := hx.run hs
  rw [run_bind_of_raised ran]
  exact ⟨rfl, after⟩

theorem Always.bind_stalled (hx : x.Always P .stalled Q) : (x >>= k).Always P .stalled Q := by
  intro s hs
  obtain ⟨ran, after⟩ := hx.run hs
  rw [run_bind, ran]
  exact ⟨rfl, after⟩

theorem Always.attempt (hx : x.Always P o Q) : x.attempt.Always P o.attempted Q := by
  intro s hs
  obtain ⟨ran, after⟩ := hx.run hs
  rw [run_attempt, ran]
  cases o <;> exact ⟨rfl, after⟩

theorem Always.observe (hx : x.Always P o Q) : x.observe.Always P (.returned o) Q := by
  intro s hs
  obtain ⟨ran, after⟩ := hx.run hs
  rw [run_observe, ran]
  exact ⟨rfl, after⟩

end

end Action

/-! ## Executions -/

section
variable {ω ω' ε α : Type} {P : ω → ω → Prop}

/-- Events that are equal, with changes that keep states related. -/
structure Emission.Agrees (P : ω → ω → Prop) (m n : Emission ω ε) : Prop where
  event : m.event = n.event
  before : ∀ s t, P s t → P (m.before s) (n.before t)
  close : ∀ s t, P s t → P (m.close s) (n.close t)

/-- Executions that emit equal events and come to the same end. -/
structure Execution.Agrees (P : ω → ω → Prop) (x y : Execution ω ε) : Prop where
  emissions : List.Forall₂ (Emission.Agrees P) x.emissions y.emissions
  finish : x.finish.Agrees P y.finish

/-- Executions that agree mirror each other. -/
theorem Execution.agrees_iff {x y : Execution ω ε} : x.Agrees P y ↔ x.Mirrors P Eq y :=
  ⟨fun h => ⟨h.emissions.imp fun _ _ hm => ⟨hm.event, hm.before, hm.close⟩, h.finish⟩,
    fun h => ⟨h.emissions.imp fun _ _ hm => ⟨hm.event, hm.before, hm.close⟩, h.finish⟩⟩

theorem Execution.Agrees.zoom {P' : ω' → ω' → Prop} {part : ω → ω'} {put : ω → ω' → ω}
    {x y : Execution ω' ε} (h : x.Agrees P' y) (hp : ∀ s t, P s t → P' (part s) (part t))
    (hq : ∀ s t u v, P s t → P' u v → P (put s u) (put t v)) :
    (x.zoom part put).Agrees P (y.zoom part put) :=
  agrees_iff.2 ((agrees_iff.1 h).zoom hp hq)

namespace Deadline

variable [Hosted ω] {handle handle' : ε → Action ω Demand}

/-- What always returns does so within a limit. -/
theorem always_call {Q Q' : ω → Prop} {x : Action ω α} {a : α} (limit : Option Number)
    (operation : TimedOperation) (h : x.Always Q (.returned a) Q') :
    (call limit operation x).Always Q (.returned a) Q' := by
  unfold call
  split
  · exact h
  · exact h.observe.bind (.pure a)

/-- Handing over executions within a limit agrees if what the executions emit does. -/
theorem agrees_relay (clock : SameClock P) (limit : Option Number) (operation : TimedOperation)
    {start start' : Action ω (Execution ω ε)} (hs : start.Couples P (Execution.Agrees P) P start')
    (hh : ∀ a, (handle a).Agrees P (handle' a)) :
    (relay limit operation start handle).Agrees P (relay limit operation start' handle') := by
  refine mirrors_relay clock limit operation (E := Eq) (fun s t same => ?_) fun a _ h => h ▸ hh a
  obtain ⟨alike, state⟩ := hs s t same
  exact ⟨alike.mono fun _ _ => Execution.agrees_iff.1, state⟩

end Deadline

end

end VideoExport
