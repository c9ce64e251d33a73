import Mathlib.Data.List.Forall2
import VideoExport.Proofs.Evolution

/-!
# Simulations

`x.Simulates P R y`: from states that `P` relates, `x` and `y` end alike, with values that `R` relates,
in states that `P` relates again. `x.Mirrors P y` is the case of equal values. The states may be of
different types: `Seen f` relates a state to what is seen of it through `f`. What mirrors what is found
along the way in which an action is put together, up to executions that are handed over within a limit
(`Deadline.mirrors_relay`), whose events may differ as far as their consumer does not tell them apart.
-/

set_option autoImplicit false

namespace VideoExport

/-- Ends of the same kind, with related values or the same failure. -/
def Outcome.Alike {α β : Type} (R : α → β → Prop) : Outcome α → Outcome β → Prop
  | .returned a, .returned b => R a b
  | .raised f, .raised g => f = g
  | .stalled, .stalled => True
  | _, _ => False

theorem Outcome.alike_eq {α : Type} {o o' : Outcome α} (h : Outcome.Alike Eq o o') : o = o' := by
  cases o <;> cases o' <;> first | exact congrArg _ h | rfl | cases h

theorem Outcome.alike_refl {α : Type} : ∀ o : Outcome α, Outcome.Alike Eq o o
  | .returned _ => rfl
  | .raised _ => rfl
  | .stalled => trivial

theorem Outcome.Alike.mono {α β : Type} {R Q : α → β → Prop} (hRQ : ∀ a b, R a b → Q a b) :
    ∀ {o : Outcome α} {o' : Outcome β}, Outcome.Alike R o o' → Outcome.Alike Q o o'
  | .returned _, .returned _, h => hRQ _ _ h
  | .raised _, .raised _, h => h
  | .stalled, .stalled, _ => trivial

/-- What is seen of a state through `f`. -/
def Seen {ω ω' : Type} (f : ω → ω') (s : ω) (t : ω') : Prop := t = f s

namespace Action

variable {ω ω' α β α' β' : Type}

/-- From states that `P` relates, `x` and `y` end alike, with values that `R` relates, in states that
`P` relates. -/
def Simulates (x : Action ω α) (P : ω → ω' → Prop) (R : α → β → Prop) (y : Action ω' β) : Prop :=
  ∀ s t, P s t → Outcome.Alike R (x.run s).1 (y.run t).1 ∧ P (x.run s).2 (y.run t).2

/-- From states that `P` relates, `x` and `y` end equally, in states that `P` relates. -/
def Mirrors (x : Action ω α) (P : ω → ω' → Prop) (y : Action ω' α) : Prop := x.Simulates P Eq y

variable {P : ω → ω' → Prop} {R : α → β → Prop} {Q : α' → β' → Prop}

theorem Mirrors.run_eq {x : Action ω α} {y : Action ω' α} (h : x.Mirrors P y) {s : ω} {t : ω'}
    (hs : P s t) : (x.run s).1 = (y.run t).1 ∧ P (x.run s).2 (y.run t).2 :=
  ⟨Outcome.alike_eq (h s t hs).1, (h s t hs).2⟩

theorem Simulates.pure {a : α} {b : β} (h : R a b) :
    (Pure.pure a : Action ω α).Simulates P R (Pure.pure b) := fun _ _ hs => ⟨h, hs⟩

theorem Simulates.raise (g : Failure) :
    (Action.raise g : Action ω α).Simulates P R (Action.raise g : Action ω' β) :=
  fun _ _ hs => ⟨rfl, hs⟩

theorem Simulates.bind {x : Action ω α} {y : Action ω' β} {k : α → Action ω α'}
    {l : β → Action ω' β'} (hx : x.Simulates P R y) (hk : ∀ a b, R a b → (k a).Simulates P Q (l b)) :
    (x >>= k).Simulates P Q (y >>= l) := by
  intro s t hs
  obtain ⟨alike, state⟩ := hx s t hs
  rw [run_bind, run_bind]
  rcases h : x.run s with ⟨a | g | _, s'⟩ <;> rcases h' : y.run t with ⟨b | g' | _, t'⟩ <;>
    rw [h, h'] at alike <;> rw [h, h'] at state <;> try cases alike
  · exact hk a b alike s' t' state
  · exact ⟨rfl, state⟩
  · exact ⟨trivial, state⟩

section
variable {x : Action ω α} {y : Action ω' α}

theorem Mirrors.refl (x : Action ω α) : x.Mirrors Eq x := by
  rintro s _ rfl
  exact ⟨Outcome.alike_refl _, rfl⟩

theorem Mirrors.pure (a : α) : (Pure.pure a : Action ω α).Mirrors P (Pure.pure a) :=
  Simulates.pure rfl

theorem Mirrors.raise (g : Failure) : (Action.raise g : Action ω α).Mirrors P (Action.raise g) :=
  Simulates.raise g

theorem Mirrors.read {g : ω → α} {g' : ω' → α} (h : ∀ s t, P s t → g s = g' t) :
    (Action.read g).Mirrors P (Action.read g') := fun s t hs => ⟨h s t hs, hs⟩

theorem Mirrors.modify {m : ω → ω} {m' : ω' → ω'} (h : ∀ s t, P s t → P (m s) (m' t)) :
    (Action.modify m).Mirrors P (Action.modify m') := fun s t hs => ⟨rfl, h s t hs⟩

theorem Mirrors.ofExcept : ∀ r : Except Failure α,
    (Action.ofExcept r : Action ω α).Mirrors P (Action.ofExcept r)
  | .ok a => .pure a
  | .error g => .raise g

theorem Mirrors.ofNumeric (r : Except NumericError α) :
    (Action.ofNumeric r : Action ω α).Mirrors P (Action.ofNumeric r) := .ofExcept _

theorem Mirrors.andThen {k : α → Action ω α'} {l : α → Action ω' β'} (hx : x.Mirrors P y)
    (hk : ∀ a, (k a).Simulates P Q (l a)) : (x >>= k).Simulates P Q (y >>= l) :=
  Simulates.bind hx fun a _ h => h ▸ hk a

theorem Mirrors.bind {k : α → Action ω β} {l : α → Action ω' β} (hx : x.Mirrors P y)
    (hk : ∀ a, (k a).Mirrors P (l a)) : (x >>= k).Mirrors P (y >>= l) := hx.andThen hk

/-- What is asked of two related states may differ, if what comes next mirrors. -/
theorem Mirrors.get_bind {k : ω → Action ω α} {l : ω' → Action ω' α}
    (hk : ∀ s t, P s t → (k s).Mirrors P (l t)) : (Action.get >>= k).Mirrors P (Action.get >>= l) :=
  fun s t hs => hk s t hs s t hs

theorem Mirrors.ite {c : Prop} [Decidable c] {x' : Action ω α} {y' : Action ω' α}
    (hx : x.Mirrors P y) (hx' : x'.Mirrors P y') :
    (if c then x else x').Mirrors P (if c then y else y') := by
  split
  · exact hx
  · exact hx'

theorem Simulates.observe {y : Action ω' β} (hx : x.Simulates P R y) :
    x.observe.Simulates P (Outcome.Alike R) y.observe := hx

theorem Mirrors.observe (hx : x.Mirrors P y) : x.observe.Mirrors P y.observe := fun _ _ hs =>
  hx.run_eq hs

theorem Mirrors.attempt (hx : x.Mirrors P y) : x.attempt.Mirrors P y.attempt := by
  intro s t hs
  obtain ⟨same, state⟩ := hx.run_eq hs
  rw [run_attempt, run_attempt]
  rcases h : x.run s with ⟨a | g | _, s'⟩ <;> rcases h' : y.run t with ⟨b | g' | _, t'⟩ <;>
    rw [h, h'] at same <;> rw [h, h'] at state <;> cases same
  · exact ⟨rfl, state⟩
  · exact ⟨rfl, state⟩
  · exact ⟨trivial, state⟩

theorem Mirrors.ensuring {last : Action ω Unit} {last' : Action ω' Unit} (hx : x.Mirrors P y)
    (hl : last.Mirrors P last') : (x.ensuring last).Mirrors P (y.ensuring last') :=
  .bind hx.attempt fun o => .bind hl fun _ => .ofExcept o

end

/-- Work on a part simulates work on a part if the parts are related, and what becomes of them keeps
the whole so. -/
theorem Simulates.zoom {ν ν' : Type} {P' : ν → ν' → Prop} {part : ω → ν} {put : ω → ν → ω}
    {part' : ω' → ν'} {put' : ω' → ν' → ω'} {x : Action ν α} {y : Action ν' β}
    (hx : x.Simulates P' R y) (hp : ∀ s t, P s t → P' (part s) (part' t))
    (hq : ∀ s t u v, P s t → P' u v → P (put s u) (put' t v)) :
    (Action.zoom part put x).Simulates P R (Action.zoom part' put' y) := by
  intro s t hs
  obtain ⟨alike, state⟩ := hx _ _ (hp s t hs)
  rw [run_zoom, run_zoom]
  exact ⟨alike, hq _ _ _ _ hs state⟩

theorem Mirrors.zoom {ν ν' : Type} {P' : ν → ν' → Prop} {part : ω → ν} {put : ω → ν → ω}
    {part' : ω' → ν'} {put' : ω' → ν' → ω'} {x : Action ν α} {y : Action ν' α}
    (hx : x.Mirrors P' y) (hp : ∀ s t, P s t → P' (part s) (part' t))
    (hq : ∀ s t u v, P s t → P' u v → P (put s u) (put' t v)) :
    (Action.zoom part put x).Mirrors P (Action.zoom part' put' y) := Simulates.zoom hx hp hq

end Action

/-! ## Executions -/

section
variable {ω ω' ε ε' : Type}

/-- Related events, with changes that keep states related. -/
structure Emission.Mirrors (P : ω → ω' → Prop) (E : ε → ε' → Prop) (m : Emission ω ε)
    (n : Emission ω' ε') : Prop where
  event : E m.event n.event
  before : ∀ s t, P s t → P (m.before s) (n.before t)
  close : ∀ s t, P s t → P (m.close s) (n.close t)

/-- Executions that emit related events and come to the same end. -/
structure Execution.Mirrors (P : ω → ω' → Prop) (E : ε → ε' → Prop) (x : Execution ω ε)
    (y : Execution ω' ε') : Prop where
  emissions : List.Forall₂ (Emission.Mirrors P E) x.emissions y.emissions
  finish : x.finish.Mirrors P y.finish

theorem Execution.Mirrors.zoom {ν ν' : Type} {P : ω → ω' → Prop} {P' : ν → ν' → Prop}
    {E : ε → ε' → Prop} {part : ω → ν} {put : ω → ν → ω} {part' : ω' → ν'} {put' : ω' → ν' → ω'}
    {x : Execution ν ε} {y : Execution ν' ε'} (h : x.Mirrors P' E y)
    (hp : ∀ s t, P s t → P' (part s) (part' t))
    (hq : ∀ s t u v, P s t → P' u v → P (put s u) (put' t v)) :
    (x.zoom part put).Mirrors P E (y.zoom part' put') where
  emissions := by
    unfold Execution.zoom
    rw [List.forall₂_map_left_iff, List.forall₂_map_right_iff]
    refine h.emissions.imp fun m n hm => ⟨hm.event, fun s t hs => ?_, fun s t hs => ?_⟩
    · exact hq _ _ _ _ hs (hm.before _ _ (hp _ _ hs))
    · exact hq _ _ _ _ hs (hm.close _ _ (hp _ _ hs))
  finish := Action.Mirrors.zoom h.finish hp hq

namespace Deadline

variable {α : Type} {P : ω → ω' → Prop} {E : ε → ε' → Prop} {wait last : Action ω Unit}
  {wait' last' : Action ω' Unit} {handle : ε → Action ω Demand} {handle' : ε' → Action ω' Demand}

theorem mirrors_handOver (hw : wait.Mirrors P wait')
    (hh : ∀ a b, E a b → (handle a).Mirrors P (handle' b)) (hl : last.Mirrors P last')
    {ms : List (Emission ω ε)} {ns : List (Emission ω' ε')}
    (h : List.Forall₂ (Emission.Mirrors P E) ms ns) : ∀ {close : ω → ω} {close' : ω' → ω'},
    (∀ s t, P s t → P (close s) (close' t)) →
    (handOver wait handle last ms close).Mirrors P (handOver wait' handle' last' ns close') := by
  induction h with
  | nil =>
    intro close close' hc
    refine .bind hw.attempt fun o => ?_
    cases o with
    | ok _ => exact hl
    | error g => exact .bind (.modify hc) fun _ => .raise g
  | cons first _ ih =>
    intro _ _ hc
    refine .bind hw.attempt fun o => ?_
    cases o with
    | error g => exact .bind (.modify hc) fun _ => .raise g
    | ok _ =>
      refine .bind (.modify first.before) fun _ => .bind (hh _ _ first.event).attempt fun d => ?_
      match d with
      | .error g => exact .bind (.modify first.close) fun _ => .raise g
      | .ok .enough => exact .modify first.close
      | .ok .more => exact ih first.close

theorem simulates_unstalled {β : Type} {R : α → β → Prop} {x : Action ω α} {y : Action ω' β}
    (operation : TimedOperation) (limit : Number) (hx : x.Simulates P R y) :
    (unstalled operation limit x).Simulates P R (unstalled operation limit y) := by
  refine .bind hx.observe fun o o' alike => ?_
  match o, o', alike with
  | .returned _, .returned _, h => exact .pure h
  | .raised _, .raised _, h => exact h ▸ .raise _
  | .stalled, .stalled, _ => exact .raise _

variable [Hosted ω] [Hosted ω']

/-- The clock shows the same. -/
def SameClock (P : ω → ω' → Prop) : Prop :=
  ∀ s t, P s t → (Hosted.host s).clock = (Hosted.host t).clock

theorem mirrors_check (clock : SameClock P) (operation : TimedOperation) (limit deadline : Number) :
    (check operation limit deadline : Action ω Unit).Mirrors P (check operation limit deadline) :=
  .bind (.read clock) fun _ => .bind (.ofNumeric _) fun _ => .ite (.raise _) (.pure _)

/-- A call within a limit mirrors one of what is mirrored, if it is noted in the log alike that a call
is abandoned. -/
theorem mirrors_call (limit : Option Number) (operation : TimedOperation) {x : Action ω α}
    {y : Action ω' α} (noted : ∀ n, (noteAbandoned n : Action ω Unit).Mirrors P (noteAbandoned n))
    (hx : x.Mirrors P y) : (call limit operation x).Mirrors P (call limit operation y) := by
  have expires (n : Number) : (noteAbandoned n >>= fun _ => expire operation n : Action ω α).Mirrors P
      (noteAbandoned n >>= fun _ => expire operation n) := .bind (noted n) fun _ => .raise _
  unfold call
  cases limit? limit with
  | none => exact hx
  | some n =>
    refine .bind hx.observe fun o => ?_
    cases o with
    | returned a => exact .pure a
    | raised g => exact .ite (expires n) (.raise g)
    | stalled => exact expires n

/-- Handing over an execution within a limit mirrors handing over one that mirrors it, if their
consumers do not tell related events apart. -/
theorem mirrors_relay (clock : SameClock P) (limit : Option Number) (operation : TimedOperation)
    {start : Action ω (Execution ω ε)} {start' : Action ω' (Execution ω' ε')}
    (hs : start.Simulates P (Execution.Mirrors P E) start')
    (hh : ∀ a b, E a b → (handle a).Mirrors P (handle' b)) :
    (relay limit operation start handle).Mirrors P (relay limit operation start' handle') := by
  unfold relay
  cases limit? limit with
  | none =>
    exact hs.bind fun x y h => mirrors_handOver (.pure ()) hh h.finish h.emissions fun _ _ => id
  | some n =>
    refine .bind (.read clock) fun _ => .bind (.ofNumeric _) fun deadline =>
      .bind (mirrors_check clock _ _ _) fun _ => (simulates_unstalled _ _ hs).bind fun x y h => ?_
    exact mirrors_handOver (mirrors_check clock _ _ _) hh (simulates_unstalled _ _ h.finish)
      h.emissions fun _ _ => id

end Deadline

end

end VideoExport
