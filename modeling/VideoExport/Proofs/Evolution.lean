import VideoExport.Deadline

/-!
# Evolutions

`Evolution ω`: a way for a state to change that contains standing still and is closed under one
change after another. `x.Follows E`: every run of the action `x`, however it ends, changes the state
by `E`. What follows `E` is found along the way in which an action is put together
(`Follows.bind`, `Follows.attempt`, `Follows.zoom`, `Follows.handOver`); what the end of a run says
about its parts is read off by `bind_eq` and its relatives.
-/

set_option autoImplicit false

namespace VideoExport

/-- A way for a state to change. -/
structure Evolution (ω : Type) where
  Holds : ω → ω → Prop
  refl : ∀ s, Holds s s
  trans : ∀ {s t u}, Holds s t → Holds t u → Holds s u

namespace Evolution

variable {ω ω' : Type}

instance : CoeFun (Evolution ω) fun _ => ω → ω → Prop := ⟨Holds⟩

/-- A change of a part of a state, whatever happens to the rest. -/
def on (E : Evolution ω') (part : ω → ω') : Evolution ω where
  Holds s t := E (part s) (part t)
  refl s := E.refl (part s)
  trans h₁ h₂ := E.trans h₁ h₂

/-- A change in two ways at once. -/
def and (E F : Evolution ω) : Evolution ω where
  Holds s t := E s t ∧ F s t
  refl s := ⟨E.refl s, F.refl s⟩
  trans h₁ h₂ := ⟨E.trans h₁.1 h₂.1, F.trans h₁.2 h₂.2⟩

/-- No change at all. -/
def still : Evolution ω where
  Holds s t := t = s
  refl _ := rfl
  trans h₁ h₂ := h₂.trans h₁

/-- Any change. -/
def any : Evolution ω where
  Holds _ _ := True
  refl _ := trivial
  trans _ _ := trivial

/-- A part of a state stays as it is. -/
def same {α : Type} (f : ω → α) : Evolution ω where
  Holds s t := f t = f s
  refl _ := rfl
  trans h₁ h₂ := h₂.trans h₁

end Evolution

namespace Action

variable {ω ω' α β : Type}

/-- Every run of `x` changes the state by `E`. -/
def Follows (x : Action ω α) (E : Evolution ω) : Prop := ∀ s, E s (x.run s).2

variable {E F : Evolution ω}

theorem Follows.of_run {x : Action ω α} (h : x.Follows E) {s t : ω} {o : Outcome α}
    (hr : x.run s = (o, t)) : E s t := by
  have := h s
  rwa [hr] at this

theorem Follows.mono {x : Action ω α} (h : x.Follows E) (hEF : ∀ s t, E s t → F s t) :
    x.Follows F := fun s => hEF _ _ (h s)

theorem Follows.any (x : Action ω α) : x.Follows .any := fun _ => trivial

/-- What changes nothing follows every evolution. -/
theorem Follows.of_still {x : Action ω α} (h : x.Follows .still) : x.Follows E :=
  h.mono fun s _ same => same ▸ E.refl s

/-! ## Parts of an action -/

theorem Follows.pure (a : α) : (Pure.pure a : Action ω α).Follows E := fun s => E.refl s

theorem Follows.get : (Action.get : Action ω ω).Follows E := fun s => E.refl s

theorem Follows.read (f : ω → α) : (Action.read f).Follows E := fun s => E.refl s

theorem Follows.modify {f : ω → ω} (h : ∀ s, E s (f s)) : (Action.modify f).Follows E := h

theorem Follows.raise (f : Failure) : (Action.raise f : Action ω α).Follows E := fun s => E.refl s

theorem Follows.stall : (Action.stall : Action ω α).Follows E := fun s => E.refl s

theorem Follows.ofExcept (x : Except Failure α) : (Action.ofExcept x : Action ω α).Follows E := by
  cases x with
  | ok a => exact .pure a
  | error f => exact .raise f

theorem Follows.ofNumeric (x : Except NumericError α) :
    (Action.ofNumeric x : Action ω α).Follows E := .ofExcept _

theorem Follows.bind {x : Action ω α} {k : α → Action ω β} (hx : x.Follows E)
    (hk : ∀ a, (k a).Follows E) : (x >>= k).Follows E := by
  intro s
  rw [run_bind]
  rcases h : x.run s with ⟨a | f | _, t⟩
  · exact E.trans (hx.of_run h) (hk a t)
  · exact hx.of_run h
  · exact hx.of_run h

/-- What comes after a part may depend on what the part returned. -/
theorem Follows.bind_of {x : Action ω α} {k : α → Action ω β} (hx : x.Follows E)
    (hk : ∀ {s t a}, x.run s = (.returned a, t) → (k a).Follows E) : (x >>= k).Follows E := by
  intro s
  rw [run_bind]
  rcases h : x.run s with ⟨a | f | _, t⟩
  · exact E.trans (hx.of_run h) (hk h t)
  · exact hx.of_run h
  · exact hx.of_run h

theorem Follows.attempt {x : Action ω α} (hx : x.Follows E) : x.attempt.Follows E := by
  intro s
  rw [run_attempt]
  rcases h : x.run s with ⟨a | f | _, t⟩ <;> exact hx.of_run h

theorem Follows.observe {x : Action ω α} (hx : x.Follows E) : x.observe.Follows E := hx

theorem Follows.ensuring {x : Action ω α} {last : Action ω Unit} (hx : x.Follows E)
    (hl : last.Follows E) : (x.ensuring last).Follows E :=
  .bind hx.attempt fun o => .bind hl fun _ => .ofExcept o

theorem Follows.ite {c : Prop} [Decidable c] {x y : Action ω α} (hx : x.Follows E)
    (hy : y.Follows E) : (if c then x else y).Follows E := by
  split
  · exact hx
  · exact hy

/-- An action on a part of a state follows what its changes of the part make of the whole. -/
theorem Follows.zoom {F : Evolution ω'} {part : ω → ω'} {put : ω → ω' → ω} {x : Action ω' α}
    (hx : x.Follows F) (h : ∀ s t, F (part s) t → E s (put s t)) :
    (Action.zoom part put x).Follows E := by
  intro s
  rw [run_zoom]
  exact h s _ (hx _)

/-! ## Ends of a run -/

theorem bind_eq {x : Action ω α} {k : α → Action ω β} {s u : ω} {o : Outcome β}
    (h : (x >>= k).run s = (o, u)) :
    (∃ a t, x.run s = (.returned a, t) ∧ (k a).run t = (o, u)) ∨
      (∃ f, x.run s = (.raised f, u) ∧ o = .raised f) ∨ x.run s = (.stalled, u) ∧ o = .stalled := by
  rw [run_bind] at h
  rcases hx : x.run s with ⟨a | f | _, t⟩ <;> rw [hx] at h
  · exact .inl ⟨a, t, rfl, h⟩
  · cases h
    exact .inr (.inl ⟨f, rfl, rfl⟩)
  · cases h
    exact .inr (.inr ⟨rfl, rfl⟩)

theorem bind_returned {x : Action ω α} {k : α → Action ω β} {s u : ω} {b : β}
    (h : (x >>= k).run s = (.returned b, u)) :
    ∃ a t, x.run s = (.returned a, t) ∧ (k a).run t = (.returned b, u) := by
  rcases bind_eq h with h | ⟨f, -, h⟩ | ⟨-, h⟩
  · exact h
  · cases h
  · cases h

theorem ofExcept_eq {x : Except Failure α} {s t : ω} {o : Outcome α}
    (h : (ofExcept x).run s = (o, t)) :
    t = s ∧ ((∃ a, x = .ok a ∧ o = .returned a) ∨ ∃ f, x = .error f ∧ o = .raised f) := by
  cases x with
  | error f =>
    cases h
    exact ⟨rfl, .inr ⟨f, rfl, rfl⟩⟩
  | ok a =>
    cases h
    exact ⟨rfl, .inl ⟨a, rfl, rfl⟩⟩

theorem ofNumeric_eq {x : Except NumericError α} {s t : ω} {o : Outcome α}
    (h : (ofNumeric x).run s = (o, t)) :
    t = s ∧ ((∃ a, x = .ok a ∧ o = .returned a) ∨ ∃ f, o = .raised f) := by
  obtain ⟨rfl, ⟨a, ha, rfl⟩ | ⟨f, -, rfl⟩⟩ := ofExcept_eq h
  · cases x <;> cases ha
    exact ⟨rfl, .inl ⟨_, rfl, rfl⟩⟩
  · exact ⟨rfl, .inr ⟨f, rfl⟩⟩

theorem ofNumeric_returned {x : Except NumericError α} {s t : ω} {a : α}
    (h : (ofNumeric x).run s = (.returned a, t)) : x = .ok a := by
  obtain ⟨-, ⟨_, hx, ⟨⟩⟩ | ⟨f, ⟨⟩⟩⟩ := ofNumeric_eq h
  exact hx

/-- After a part that always returns comes the rest. -/
theorem bind_total {x : Action ω α} {k : α → Action ω β} {s u : ω} {o : Outcome β}
    (h : (x >>= k).run s = (o, u)) (hx : ∃ a t, x.run s = (.returned a, t)) :
    ∃ a t, x.run s = (.returned a, t) ∧ (k a).run t = (o, u) := by
  obtain ⟨a, t, hx⟩ := hx
  rw [run_bind, hx] at h
  exact ⟨a, t, hx, h⟩

/-- What comes after a part that only drops its value leaves the state as the part did. -/
theorem drop_eq {x : Action ω α} {s u : ω} {o : Outcome Unit}
    (h : (x >>= fun _ => Pure.pure ()).run s = (o, u)) : ∃ p, x.run s = (p, u) := by
  rcases bind_eq h with ⟨a, t, hx, h⟩ | ⟨f, hx, -⟩ | ⟨hx, -⟩
  · cases h
    exact ⟨_, hx⟩
  · exact ⟨_, hx⟩
  · exact ⟨_, hx⟩

theorem run_bind_of_returned {x : Action ω α} {k : α → Action ω β} {s t : ω} {a : α}
    (h : x.run s = (.returned a, t)) : (x >>= k).run s = (k a).run t := by
  rw [run_bind, h]

theorem run_bind_of_raised {x : Action ω α} {k : α → Action ω β} {s t : ω} {f : Failure}
    (h : x.run s = (.raised f, t)) : (x >>= k).run s = (.raised f, t) := by
  rw [run_bind, h]

theorem run_bind_of_stalled {x : Action ω α} {k : α → Action ω β} {s t : ω}
    (h : x.run s = (.stalled, t)) : (x >>= k).run s = (.stalled, t) := by
  rw [run_bind, h]

theorem attempt_ok {x : Action ω α} {s t : ω} {a : α} :
    x.attempt.run s = (.returned (.ok a), t) ↔ x.run s = (.returned a, t) := by
  rw [run_attempt]
  rcases x.run s with ⟨b | f | _, u⟩ <;> simp

theorem attempt_error {x : Action ω α} {s t : ω} {f : Failure} :
    x.attempt.run s = (.returned (.error f), t) ↔ x.run s = (.raised f, t) := by
  rw [run_attempt]
  rcases x.run s with ⟨b | g | _, u⟩ <;> simp

theorem attempt_stalled {x : Action ω α} {s t : ω} :
    x.attempt.run s = (.stalled, t) ↔ x.run s = (.stalled, t) := by
  rw [run_attempt]
  rcases x.run s with ⟨b | g | _, u⟩ <;> simp

theorem attempt_not_raised {x : Action ω α} {s t : ω} {f : Failure} :
    x.attempt.run s ≠ (.raised f, t) := by
  rw [run_attempt]
  rcases x.run s with ⟨b | g | _, u⟩ <;> simp

/-- An attempt that returns tells how what it tried has ended, and any such end is told so. -/
theorem attempt_returned {x : Action ω α} {s t : ω} {r : Except Failure α}
    (h : x.attempt.run s = (.returned r, t)) : ∃ p, x.run s = (p, t) ∧ p ≠ .stalled ∧
      (∀ v : ω, (ofExcept r : Action ω α).run v = (p, v)) ∧
      ∀ {u v}, x.run u = (p, v) → x.attempt.run u = (.returned r, v) := by
  cases r with
  | ok a => exact ⟨.returned a, attempt_ok.1 h, nofun, fun _ => rfl, attempt_ok.2⟩
  | error f => exact ⟨.raised f, attempt_error.1 h, nofun, fun _ => rfl, attempt_error.2⟩

theorem zoom_eq {part : ω → ω'} {put : ω → ω' → ω} {x : Action ω' α} {s u : ω} {o : Outcome α}
    (h : (zoom part put x).run s = (o, u)) : ∃ t, x.run (part s) = (o, t) ∧ u = put s t := by
  rw [run_zoom] at h
  cases h
  exact ⟨_, rfl, rfl⟩

/-- The last action runs after `x` has returned or raised, and the end is that of `x` unless the
last action fails. -/
theorem ensuring_eq {x : Action ω α} {last : Action ω Unit} {s u : ω} {o : Outcome α}
    (h : (x.ensuring last).run s = (o, u)) (ends : o ≠ .stalled) :
    ∃ p t, x.run s = (p, t) ∧ p ≠ .stalled ∧
      (last.run t = (.returned (), u) ∧ o = p ∨ ∃ f, last.run t = (.raised f, u) ∧ o = .raised f) := by
  rcases bind_eq h with ⟨r, t, hx, h⟩ | ⟨f, hx, -⟩ | ⟨-, rfl⟩
  · obtain ⟨p, hp, ne, hr, -⟩ := attempt_returned hx
    refine ⟨p, t, hp, ne, ?_⟩
    rcases bind_eq h with ⟨⟨⟩, v, hl, h⟩ | ⟨f, hl, rfl⟩ | ⟨-, rfl⟩
    · rw [hr] at h
      cases h
      exact .inl ⟨hl, rfl⟩
    · exact .inr ⟨f, hl, rfl⟩
    · exact absurd rfl ends
  · exact absurd hx attempt_not_raised
  · exact absurd rfl ends

/-- Any run of an action that goes on after a failure, from the end of what it tried. -/
theorem attempt_bind_eq {x : Action ω α} {k : Except Failure α → Action ω β} {s u : ω} {o : Outcome β}
    (h : (x.attempt >>= k).run s = (o, u)) :
    (∃ a t, x.run s = (.returned a, t) ∧ (k (.ok a)).run t = (o, u)) ∨
      (∃ f t, x.run s = (.raised f, t) ∧ (k (.error f)).run t = (o, u)) ∨
      x.run s = (.stalled, u) ∧ o = .stalled := by
  rcases bind_eq h with ⟨r, t, hx, h⟩ | ⟨f, hx, -⟩ | ⟨hx, rfl⟩
  · cases r with
    | ok a => exact .inl ⟨a, t, attempt_ok.1 hx, h⟩
    | error f => exact .inr (.inl ⟨f, t, attempt_error.1 hx, h⟩)
  · exact absurd hx attempt_not_raised
  · exact .inr (.inr ⟨attempt_stalled.1 hx, rfl⟩)

/-- Either what `x` does is all there is, and there is no result, or `x` returns. -/
theorem bind_split {x : Action ω α} {k : α → Action ω β} (hx : x.Follows E) {s u : ω} {o : Outcome β}
    (h : (x >>= k).run s = (o, u)) :
    (E s u ∧ ∀ b, o ≠ .returned b) ∨
      ∃ a t, x.run s = (.returned a, t) ∧ E s t ∧ (k a).run t = (o, u) := by
  rcases bind_eq h with ⟨a, t, hs, h⟩ | ⟨f, hs, rfl⟩ | ⟨hs, rfl⟩
  · exact .inr ⟨a, t, hs, hx.of_run hs, h⟩
  · exact .inl ⟨hx.of_run hs, nofun⟩
  · exact .inl ⟨hx.of_run hs, nofun⟩

/-- However it ends: what the last action does comes after what `x` does, and both return if the whole
does. -/
theorem ensuring_split {x : Action ω α} {last : Action ω Unit} (hl : last.Follows E) {s u : ω}
    {o : Outcome α} (h : (x.ensuring last).run s = (o, u)) :
    ∃ p t, x.run s = (p, t) ∧ E t u ∧ ∀ a, o = .returned a → p = .returned a := by
  have trail {r : Except Failure α} {t : ω}
      (h : (last >>= fun _ => Action.ofExcept r).run t = (o, u)) :
      E t u ∧ ∀ a, o = .returned a → r = .ok a := by
    refine ⟨Follows.of_run (.bind hl fun _ => .ofExcept r) h, fun a ho => ?_⟩
    subst ho
    obtain ⟨_, _, -, h⟩ := bind_returned h
    cases r <;> cases h
    rfl
  rcases attempt_bind_eq h with ⟨a, t, hx, h⟩ | ⟨f, t, hx, h⟩ | ⟨hx, rfl⟩
  · obtain ⟨after, returned⟩ := trail h
    exact ⟨_, t, hx, after, fun b ho => by cases returned b ho; rfl⟩
  · obtain ⟨after, returned⟩ := trail h
    exact ⟨_, t, hx, after, fun b ho => nomatch returned b ho⟩
  · exact ⟨_, u, hx, E.refl u, nofun⟩

theorem run_ensuring_of_returned {x : Action ω α} {last : Action ω Unit} {s t u : ω} {a : α}
    (hx : x.run s = (.returned a, t)) (hl : last.run t = (.returned (), u)) :
    (x.ensuring last).run s = (.returned a, u) := by
  unfold ensuring
  rw [run_bind_of_returned (attempt_ok.2 hx), run_bind_of_returned hl]
  rfl

theorem run_ensuring_of_raised {x : Action ω α} {last : Action ω Unit} {s t u : ω} {f : Failure}
    (hx : x.run s = (.raised f, t)) (hl : last.run t = (.returned (), u)) :
    (x.ensuring last).run s = (.raised f, u) := by
  unfold ensuring
  rw [run_bind_of_returned (attempt_error.2 hx), run_bind_of_returned hl]
  rfl

/-! ## What ended runs preserve -/

end Action

namespace Outcome

variable {α : Type}

/-- Whether there was an end. -/
def ended : Outcome α → Bool
  | .stalled => false
  | _ => true

/-- Whether the end was that something took too long. -/
def timedOut : Outcome α → Bool
  | .raised f => f.isTimeLimit
  | _ => false

theorem ne_stalled {o : Outcome α} (h : o.ended = true) : o ≠ .stalled := by
  rintro rfl
  cases h

theorem timedOut_eq {o : Outcome α} (h : o.timedOut = true) :
    ∃ f, o = .raised f ∧ f.isTimeLimit = true := by
  cases o with
  | raised f => exact ⟨f, rfl, h⟩
  | _ => cases h

/-- What was returned. -/
def returned? : Outcome α → Option α
  | .returned a => some a
  | _ => none

theorem returned?_eq_some {o : Outcome α} {a : α} : o.returned? = some a ↔ o = .returned a := by
  cases o <;> simp [returned?]

/-- Whether the end was that a path held a character that no path may hold. -/
def refusedPath : Outcome α → Bool
  | .raised .nullCharacter => true
  | _ => false

theorem refusedPath_eq {o : Outcome α} (h : o.refusedPath = true) : o = .raised .nullCharacter := by
  unfold refusedPath at h
  split at h
  · rfl
  · cases h

end Outcome

namespace Action

variable {ω α β : Type} {E : Evolution ω}

/-- What holds before a run of `x` that ends holds after it. -/
def Preserves (x : Action ω α) (P : ω → Prop) : Prop :=
  ∀ s o t, P s → x.run s = (o, t) → o ≠ .stalled → P t

section
variable {P : ω → Prop}

theorem Follows.preserves {x : Action ω α} (h : x.Follows E) (hP : ∀ s t, E s t → P s → P t) :
    x.Preserves P := fun _ _ _ hs hr _ => hP _ _ (h.of_run hr) hs

theorem Preserves.bind {x : Action ω α} {k : α → Action ω β} (hx : x.Preserves P)
    (hk : ∀ a, (k a).Preserves P) : (x >>= k).Preserves P := by
  intro s o t hs hr ends
  rcases bind_eq hr with ⟨a, u, hu, h⟩ | ⟨f, hf, -⟩ | ⟨-, ho⟩
  · exact hk a u o t (hx s _ u hs hu nofun) h ends
  · exact hx s _ t hs hf nofun
  · exact absurd ho ends

theorem Preserves.attempt {x : Action ω α} (hx : x.Preserves P) : x.attempt.Preserves P := by
  intro s o t hs hr ends
  rcases hx' : x.run s with ⟨a | f | _, u⟩ <;> rw [run_attempt, hx'] at hr <;> cases hr
  · exact hx s _ t hs hx' nofun
  · exact hx s _ t hs hx' nofun
  · exact absurd rfl ends

theorem Preserves.ensuring {x : Action ω α} {last : Action ω Unit} (hx : x.Preserves P)
    (hl : last.Preserves P) : (x.ensuring last).Preserves P :=
  .bind hx.attempt fun o => .bind hl fun _ =>
    (Follows.ofExcept (E := .still) o).preserves fun _ _ h hs => by cases h; exact hs

theorem Preserves.ite {c : Prop} [Decidable c] {x y : Action ω α} (hx : x.Preserves P)
    (hy : y.Preserves P) : (if c then x else y).Preserves P := by
  split
  · exact hx
  · exact hy

end

end Action

/-! ## Executions -/

/-- Every event of an execution and its end change the state by `E`. -/
structure Execution.Follows {ω ε : Type} (x : Execution ω ε) (E : Evolution ω) : Prop where
  before : ∀ m ∈ x.emissions, ∀ s, E s (m.before s)
  close : ∀ m ∈ x.emissions, ∀ s, E s (m.close s)
  finish : x.finish.Follows E

namespace Deadline

variable {ω ε α : Type} {E : Evolution ω} {wait last : Action ω Unit}
  {handle : ε → Action ω Demand}

theorem follows_handOver (hw : wait.Follows E) (hh : ∀ a, (handle a).Follows E)
    (hl : last.Follows E) : ∀ (ms : List (Emission ω ε)) (close : ω → ω),
    (∀ m ∈ ms, ∀ s, E s (m.before s)) → (∀ m ∈ ms, ∀ s, E s (m.close s)) → (∀ s, E s (close s)) →
    (handOver wait handle last ms close).Follows E
  | [], close, _, _, hc => by
    refine .bind hw.attempt fun o => ?_
    cases o with
    | ok _ => exact hl
    | error f => exact .bind (.modify hc) fun _ => .raise f
  | m :: rest, close, hbs, hcs, hc => by
    have hm : ∀ s, E s (m.close s) := hcs m (.head _)
    refine .bind hw.attempt fun o => ?_
    cases o with
    | error f => exact .bind (.modify hc) fun _ => .raise f
    | ok _ =>
      refine .bind (.modify (hbs m (.head _))) fun _ => .bind (hh m.event).attempt fun d => ?_
      match d with
      | .error f => exact .bind (.modify hm) fun _ => .raise f
      | .ok .enough => exact .modify hm
      | .ok .more =>
        exact follows_handOver hw hh hl rest m.close (fun m' h => hbs m' (.tail _ h))
          (fun m' h => hcs m' (.tail _ h)) hm

/-- A consumer that always wants more, and is handed over all events, sees the end last. -/
theorem handOver_returned (more : ∀ a s d t, (handle a).run s = (.returned d, t) → d = .more) :
    ∀ (ms : List (Emission ω ε)) (close : ω → ω) (s u : ω),
      (handOver wait handle last ms close).run s = (.returned (), u) →
      ∃ t, last.run t = (.returned (), u)
  | [], close, s, u, h => by
    obtain ⟨o, t, -, h⟩ := Action.bind_returned h
    cases o with
    | ok _ => exact ⟨t, h⟩
    | error f =>
      obtain ⟨_, _, -, h⟩ := Action.bind_returned h
      cases h
  | m :: rest, close, s, u, h => by
    obtain ⟨o, t, -, h⟩ := Action.bind_returned h
    cases o with
    | error f =>
      obtain ⟨_, _, -, h⟩ := Action.bind_returned h
      cases h
    | ok _ =>
      obtain ⟨_, _, -, h⟩ := Action.bind_returned h
      obtain ⟨r, v, hd, h⟩ := Action.bind_returned h
      cases r with
      | ok d =>
        obtain rfl := more _ _ _ _ (Action.attempt_ok.1 hd)
        exact handOver_returned more rest m.close v u h
      | error f =>
        obtain ⟨_, _, -, h⟩ := Action.bind_returned h
        cases h

theorem follows_expire (operation : TimedOperation) (limit : Number) :
    (expire operation limit : Action ω α).Follows E := .raise _

theorem follows_unstalled {x : Action ω α} (operation : TimedOperation) (limit : Number)
    (hx : x.Follows E) : (unstalled operation limit x).Follows E := by
  refine .bind hx.observe fun o => ?_
  cases o with
  | returned a => exact .pure a
  | raised f => exact .raise f
  | stalled => exact follows_expire _ _

variable [Hosted ω]

/-- A call within a limit ends as the call itself, or it fails after the call did not return. -/
theorem call_cases {x : Action ω α} {limit : Option Number} {operation : TimedOperation}
    {s u : ω} {o : Outcome α} (h : (call limit operation x).run s = (o, u)) :
    x.run s = (o, u) ∨ ∃ p t n, x.run s = (p, t) ∧ (∀ a, p ≠ .returned a) ∧
      (noteAbandoned n >>= fun _ => expire operation n).run t = (o, u) := by
  unfold call at h
  cases hl : limit? limit with
  | none =>
    rw [hl] at h
    exact .inl h
  | some n =>
    rw [hl] at h
    obtain ⟨p, t, hp, h⟩ := Action.bind_total h ⟨_, _, Action.run_observe s x⟩
    rw [Action.run_observe] at hp
    have hx : x.run s = (p, t) := by
      cases hp
      rfl
    cases p with
    | returned a =>
      cases h
      exact .inl hx
    | raised f =>
      dsimp only at h
      split at h
      · exact .inr ⟨_, t, n, hx, nofun, h⟩
      · cases h
        exact .inl hx
    | stalled => exact .inr ⟨_, t, n, hx, nofun, h⟩

theorem follows_check (operation : TimedOperation) (limit deadline : Number) :
    (check operation limit deadline : Action ω Unit).Follows E :=
  .bind (.read _) fun _ => .bind (.ofNumeric _) fun _ => .ite (follows_expire _ _) (.pure _)

theorem follows_call {x : Action ω α} (limit : Option Number) (operation : TimedOperation)
    (hx : x.Follows E) (hn : ∀ limit, (noteAbandoned limit : Action ω Unit).Follows E) :
    (call limit operation x).Follows E := by
  unfold call
  cases limit? limit with
  | none => exact hx
  | some n =>
    refine .bind hx.observe fun o => ?_
    cases o with
    | returned a => exact .pure a
    | raised f => exact .ite (.bind (hn n) fun _ => follows_expire _ _) (.raise f)
    | stalled => exact .bind (hn n) fun _ => follows_expire _ _

omit [Hosted ω] in
theorem unstalled_returned {x : Action ω α} {operation : TimedOperation} {limit : Number}
    {s u : ω} {a : α} (h : (unstalled operation limit x).run s = (.returned a, u)) :
    x.run s = (.returned a, u) := by
  obtain ⟨o, t, ho, h⟩ := Action.bind_returned h
  rw [Action.run_observe] at ho
  cases ho
  rcases hx : x.run s with ⟨b | f | _, t⟩ <;> rw [hx] at h <;> cases h
  rfl

/-- What starting an execution does is followed by what its events and its end do. -/
theorem relay_related {start : Action ω (Execution ω ε)} {R : ω → ω → Prop}
    (limit : Option Number) (operation : TimedOperation) (stay : ∀ s, R s s)
    (go : ∀ {s t u}, R s t → E t u → R s u) (hs : ∀ s, R s (start.run s).2)
    (hx : ∀ s x t, start.run s = (.returned x, t) → x.Follows E)
    (hh : ∀ a, (handle a).Follows E) (s : ω) :
    R s ((relay limit operation start handle).run s).2 := by
  have bound {wait : Action ω Unit} {finish : Execution ω ε → Action ω Unit}
      {first : Action ω (Execution ω ε)} (hw : wait.Follows E) (hf : ∀ s, R s (first.run s).2)
      (hx : ∀ s x t, first.run s = (.returned x, t) → x.Follows E ∧ (finish x).Follows E) (s : ω) :
      R s ((first >>= fun x => handOver wait handle (finish x) x.emissions id).run s).2 := by
    have started := hf s
    rw [Action.run_bind]
    rcases h : first.run s with ⟨x | f | _, t⟩ <;> rw [h] at started
    · obtain ⟨h₁, h₂⟩ := hx s x t h
      exact go started (follows_handOver hw hh h₂ _ _ h₁.before h₁.close E.refl t)
    · exact started
    · exact started
  -- what comes before the start leaves the state as it is
  have after {α β : Type} {x : Action ω α} {k : α → Action ω β} (hx : x.Follows .still)
      (hk : ∀ a s, R s ((k a).run s).2) (s : ω) : R s ((x >>= k).run s).2 := by
    rw [Action.run_bind]
    rcases h : x.run s with ⟨a | f | _, t⟩ <;> obtain rfl : t = s := hx.of_run h
    · exact hk a t
    · exact stay t
    · exact stay t
  unfold relay
  cases limit? limit with
  | none => exact bound (.pure _) hs (fun s x t h => ⟨hx s x t h, (hx s x t h).finish⟩) s
  | some n =>
    refine after (.read _) (fun _ => after (.ofNumeric _) fun d => after (follows_check _ _ _)
      fun _ => bound (follows_check _ _ _) (fun s => ?_) fun s x t h => ?_) s
    · have := hs s
      unfold unstalled
      rw [Action.run_bind, Action.run_observe]
      rcases (start.run s).1 with a | f | _ <;> exact this
    · have started := hx s x t (unstalled_returned h)
      exact ⟨started, follows_unstalled _ _ started.finish⟩

/-- Handing over an execution follows `E` if starting it does, every execution that is started, and
every way of handling an event. -/
theorem follows_relay {start : Action ω (Execution ω ε)} (limit : Option Number)
    (operation : TimedOperation) (hs : start.Follows E)
    (hx : ∀ s x t, start.run s = (.returned x, t) → x.Follows E)
    (hh : ∀ a, (handle a).Follows E) : (relay limit operation start handle).Follows E :=
  relay_related limit operation E.refl E.trans hs hx hh

/-- An execution that is handed over to a consumer who always wants more comes to its end. -/
theorem relay_returned {start : Action ω (Execution ω ε)} {limit : Option Number}
    {operation : TimedOperation} {s u : ω}
    (more : ∀ a s d t, (handle a).run s = (.returned d, t) → d = .more)
    (h : (relay limit operation start handle).run s = (.returned (), u)) :
    ∃ t x t' v, start.run t = (.returned x, t') ∧ x.finish.run v = (.returned (), u) := by
  unfold relay at h
  cases hl : limit? limit with
  | none =>
    rw [hl] at h
    obtain ⟨x, t, hx, h⟩ := Action.bind_returned h
    obtain ⟨v, hv⟩ := handOver_returned more _ _ _ _ h
    exact ⟨s, x, t, v, hx, hv⟩
  | some n =>
    rw [hl] at h
    obtain ⟨_, _, -, h⟩ := Action.bind_returned h
    obtain ⟨_, _, -, h⟩ := Action.bind_returned h
    obtain ⟨_, t, -, h⟩ := Action.bind_returned h
    obtain ⟨x, t', hx, h⟩ := Action.bind_returned h
    obtain ⟨v, hv⟩ := handOver_returned more _ _ _ _ h
    exact ⟨t, x, t', v, unstalled_returned hx, unstalled_returned hv⟩

end Deadline

end VideoExport
