import VideoExport.Engine.Execution
import VideoExport.Host.Basic

/-!
# Time limits

`Deadline.call` runs an action that may stall, and `Deadline.relay` passes on the events of an
execution, both within a time limit. A limit of zero is none. An action that outlives its limit is
abandoned where it stalls, and its operation fails; a time limit that passes while an event is being
handled is noticed at the next wait.
-/

set_option autoImplicit false

namespace VideoExport.Deadline

variable {ω ε α : Type} [Hosted ω]

/-- The limit, unless it is absent or zero. -/
def limit? (limit : Option Number) : Option Number := limit.filter (!·.isZero)

/-- Fails because the limit has passed. -/
def expire (operation : TimedOperation) (limit : Number) : Action ω α :=
  .raise (Failure.expired operation limit)

/-- Notes in the log that an operation is abandoned. -/
def noteAbandoned (limit : Number) : Action ω Unit :=
  let shown := limit.text.toOption.getD ""
  Host.log .error "Timeouts" s!"Operação abandonada após {shown}s"

/-- Whether a failure says itself that a time limit has passed. -/
def isTimeout : Failure → Bool
  | .raised .timeout _ => true
  | _ => false

/-- Runs an action within a limit. -/
def call (limit : Option Number) (operation : TimedOperation) (x : Action ω α) : Action ω α :=
  match limit? limit with
  | none => x
  | some limit => do
    match ← x.observe with
    | .returned a => return a
    | .raised f =>
      if isTimeout f then
        noteAbandoned limit
        expire operation limit
      else .raise f
    | .stalled =>
      noteAbandoned limit
      expire operation limit

/-! ## Events -/

/-- What a consumer wants after an event. -/
inductive Demand where
  | more
  | enough
  deriving DecidableEq, Repr

/-- Hands over events one by one, each after `wait`, and then comes to the end by `last`. Whatever
keeps the consumer from taking the next event closes the execution. -/
def handOver (wait : Action ω Unit) (handle : ε → Action ω Demand) (last : Action ω Unit) :
    List (Emission ω ε) → (ω → ω) → Action ω Unit
  | [], close => do
    match ← wait.attempt with
    | .ok () => last
    | .error f =>
      .modify close
      .raise f
  | e :: rest, close => do
    match ← wait.attempt with
    | .error f =>
      .modify close
      .raise f
    | .ok () =>
      .modify e.before
      match ← (handle e.event).attempt with
      | .error f =>
        .modify e.close
        .raise f
      | .ok .enough => .modify e.close
      | .ok .more => handOver wait handle last rest e.close

/-- Fails if the clock has reached the deadline. -/
def check (operation : TimedOperation) (limit : Number) (deadline : Number) : Action ω Unit := do
  let now ← Action.read fun s : ω => (Hosted.host s).clock
  let remaining ← Action.ofNumeric (deadline.sub (.real now))
  if remaining.le 0 then expire operation limit

/-- Runs an action that fails with the operation if it stalls. -/
def unstalled (operation : TimedOperation) (limit : Number) (x : Action ω α) : Action ω α := do
  match ← x.observe with
  | .returned a => return a
  | .raised f => .raise f
  | .stalled => expire operation limit

/-- Starts an execution and hands over its events within a limit. -/
def relay (limit : Option Number) (operation : TimedOperation) (start : Action ω (Execution ω ε))
    (handle : ε → Action ω Demand) : Action ω Unit :=
  match limit? limit with
  | none => do
    let x ← start
    handOver (pure ()) handle x.finish x.emissions id
  | some limit => do
    let now ← Action.read fun s : ω => (Hosted.host s).clock
    let deadline ← Action.ofNumeric ((Number.real now).add limit)
    let wait : Action ω Unit := check operation limit deadline
    wait
    let x ← unstalled operation limit start
    handOver wait handle (unstalled operation limit x.finish) x.emissions id

end VideoExport.Deadline
