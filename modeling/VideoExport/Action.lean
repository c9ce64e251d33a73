import VideoExport.Failure

/-!
# Actions

An action works on a state of type `ω` and ends in one of three ways: it returns a value, it raises
a failure, or it stalls, that is, it never ends. `Action.attempt` turns a failure into a value, and
`Action.ensuring` adds a last action after either of the first two ends; neither goes on after a
stall. `Action.observe` shows any end, a stall too. `Action.zoom` runs an action on a part of a
larger state.
-/

set_option autoImplicit false

namespace VideoExport

/-- How an action ends. -/
inductive Outcome (α : Type) where
  | returned (a : α)
  | raised (f : Failure)
  /-- It never ends. -/
  | stalled

/-- Work on a state. -/
def Action (ω α : Type) : Type := ω → Outcome α × ω

namespace Action

variable {ω ω' α β : Type}

/-- The end of an action and the state that it leaves. -/
def run (x : Action ω α) (s : ω) : Outcome α × ω := x s

protected def pure (a : α) : Action ω α := fun s => (.returned a, s)

protected def bind (x : Action ω α) (k : α → Action ω β) : Action ω β := fun s =>
  match x s with
  | (.returned a, s') => k a s'
  | (.raised f, s') => (.raised f, s')
  | (.stalled, s') => (.stalled, s')

instance : Monad (Action ω) where
  pure := Action.pure
  bind := Action.bind

/-! ## Basic actions -/

def get : Action ω ω := fun s => (.returned s, s)

/-- A part of the state. -/
def read (f : ω → α) : Action ω α := fun s => (.returned (f s), s)

def modify (f : ω → ω) : Action ω Unit := fun s => (.returned (), f s)

def raise (f : Failure) : Action ω α := fun s => (.raised f, s)

def stall : Action ω α := fun s => (.stalled, s)

/-- Returns a value or raises a failure. -/
def ofExcept : Except Failure α → Action ω α
  | .ok a => pure a
  | .error f => raise f

/-- Returns a number or raises the failure of its computation. -/
def ofNumeric (x : Except NumericError α) : Action ω α := ofExcept (x.mapError .numeric)

/-! ## Ends -/

/-- Goes on after a failure, with the failure as a value. -/
def attempt (x : Action ω α) : Action ω (Except Failure α) := fun s =>
  match x s with
  | (.returned a, s') => (.returned (.ok a), s')
  | (.raised f, s') => (.returned (.error f), s')
  | (.stalled, s') => (.stalled, s')

/-- Goes on after any end, with the end as a value. -/
def observe (x : Action ω α) : Action ω (Outcome α) := fun s =>
  match x s with
  | (outcome, s') => (.returned outcome, s')

/-- Runs `last` after `x` has returned or raised; the end is that of `x` unless `last` fails. -/
def ensuring (x : Action ω α) (last : Action ω Unit) : Action ω α := do
  let outcome ← attempt x
  last
  ofExcept outcome

/-! ## Parts of a state -/

/-- Runs an action on a part of the state. -/
def zoom (part : ω → ω') (put : ω → ω' → ω) (x : Action ω' α) : Action ω α := fun s =>
  match x (part s) with
  | (outcome, t) => (outcome, put s t)

/-! ## Runs -/

section
variable (s : ω)

@[simp] theorem run_pure (a : α) : (pure a : Action ω α).run s = (.returned a, s) := rfl

@[simp] theorem run_get : (get : Action ω ω).run s = (.returned s, s) := rfl

@[simp] theorem run_read (f : ω → α) : (read f).run s = (.returned (f s), s) := rfl

@[simp] theorem run_modify (f : ω → ω) : (modify f).run s = (.returned (), f s) := rfl

@[simp] theorem run_raise (f : Failure) : (raise f : Action ω α).run s = (.raised f, s) := rfl

@[simp] theorem run_ofExcept_ok (a : α) :
    (ofExcept (.ok a) : Action ω α).run s = (.returned a, s) := rfl

@[simp] theorem run_ofNumeric_ok (a : α) :
    (ofNumeric (.ok a) : Action ω α).run s = (.returned a, s) := rfl

@[simp] theorem run_stall : (stall : Action ω α).run s = (.stalled, s) := rfl

theorem run_bind (x : Action ω α) (k : α → Action ω β) :
    (x >>= k).run s = match x.run s with
      | (.returned a, s') => (k a).run s'
      | (.raised f, s') => (.raised f, s')
      | (.stalled, s') => (.stalled, s') := rfl

theorem run_attempt (x : Action ω α) :
    x.attempt.run s = match x.run s with
      | (.returned a, s') => (.returned (.ok a), s')
      | (.raised f, s') => (.returned (.error f), s')
      | (.stalled, s') => (.stalled, s') := rfl

theorem run_observe (x : Action ω α) :
    x.observe.run s = (.returned (x.run s).1, (x.run s).2) := rfl

theorem run_zoom (part : ω → ω') (put : ω → ω' → ω) (x : Action ω' α) :
    (zoom part put x).run s = ((x.run (part s)).1, put s (x.run (part s)).2) := rfl

end

end Action

end VideoExport
