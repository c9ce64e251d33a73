import VideoExport.Action

/-!
# Executions

An execution is a sequence of events that is worked off step by step. Each event comes with what
happens to the state before it is handed over, and with what happens if nothing is taken after it;
after the last event comes the end, which may fail or never come.
-/

set_option autoImplicit false

namespace VideoExport

/-- An event of an execution. -/
structure Emission (ω ε : Type) where
  before : ω → ω := id
  event : ε
  /-- The state if the execution is closed after this event. -/
  close : ω → ω := id

/-- Events in order, and the end that follows them. -/
structure Execution (ω ε : Type) where
  emissions : List (Emission ω ε)
  finish : Action ω Unit

namespace Execution

variable {ω ω' ε : Type}

/-- The events of an execution that goes on to its end. -/
def events (x : Execution ω ε) : List ε := x.emissions.map (·.event)

/-- A change of the state before everything else. -/
def after (change : ω → ω) (x : Execution ω ε) : Execution ω ε :=
  match x.emissions with
  | [] => { x with finish := do Action.modify change; x.finish }
  | e :: rest => { x with emissions := { e with before := fun s => e.before (change s) } :: rest }

/-- Puts events before those of an execution. -/
def prepend (earlier : List (Emission ω ε)) (x : Execution ω ε) : Execution ω ε :=
  { x with emissions := earlier ++ x.emissions }

/-- An execution on a part of a larger state. -/
def zoom (part : ω → ω') (put : ω → ω' → ω) (x : Execution ω' ε) : Execution ω ε where
  emissions := x.emissions.map fun e => {
    before := fun s => put s (e.before (part s))
    event := e.event
    close := fun s => put s (e.close (part s)) }
  finish := .zoom part put x.finish

end Execution

end VideoExport
