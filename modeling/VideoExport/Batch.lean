import VideoExport.Job.Run
import VideoExport.Queue

/-!
# Batches

A batch exports the items of a queue one after another, all with the same settings. An item whose
export fails is marked, and the batch goes on. One batch runs at a time.
-/

set_option autoImplicit false

namespace VideoExport

/-- The queue of the batches, whether one is running, and the state of a client. -/
structure Desk (κ : Type) where
  queue : Queue := {}
  busy : Bool := false
  client : κ

/-- What is told about the items of a batch. -/
abbrev ItemListener (κ : Type) := QueueItem → Action (Caller (Desk κ)) Unit

namespace Batch

variable {σ κ : Type}

/-- The state during a batch. -/
abbrev State (σ κ : Type) := Job σ (Desk κ)

def logSource : String := "BatchRenderer"

/-- Changes the queue. -/
def updateQueue (f : Queue → Queue) : Action (Caller (Desk κ)) Unit :=
  .modify fun c => { c with client := { c.client with queue := f c.client.queue } }

/-- Adds files to the queue; the tickets of those that were added. -/
def add (paths : List String) : Action (Caller (Desk κ)) (List Nat) :=
  .zoom (fun c => (c.host, c.client.queue))
    (fun c s => ⟨s.1, { c.client with queue := s.2 }⟩) (Queue.add paths)

def setBusy (busy : Bool) : Action (Caller (Desk κ)) Unit :=
  .modify fun c => { c with client := { c.client with busy } }

/-- Claims the batch for a run; false if one is running. -/
def begin? : Action (Caller (Desk κ)) Bool := do
  if (← Action.read fun c : Caller (Desk κ) => c.client.busy) then
    Host.log .warning logSource "Lote já em andamento; ignorando"
    return false
  else return true

/-- Tells of the item of a ticket. -/
def notify (listener : Option (ItemListener κ)) (ticket : Nat) : Action (Caller (Desk κ)) Unit := do
  let q ← Action.read fun c : Caller (Desk κ) => c.client.queue
  match listener, q.ofTicket? ticket with
  | some tell, some item => tell item
  | _, _ => pure ()

/-- The change at the start of an item: it is processed, and nothing is left of an earlier run. -/
def started : ItemChange where
  status := some .processing
  progress := some (.real (.zero false))
  output := some none
  message := some none
  history := some []

/-- The change of an item that failed. -/
def failed (cause : Failure) (logTail : List String) : ItemChange where
  status := some .error
  message := some (some (Failure.summary cause logTail))

/-- The change of an item that succeeded. -/
def succeeded (output : Path) : ItemChange where
  status := some .done
  output := some (some output)
  progress := some (.real .one)

/-- Marks an item as being processed. -/
def announce (listener : Option (ItemListener κ)) (item : QueueItem) :
    Action (Caller (Desk κ)) Unit := do
  updateQueue (·.update item.id started)
  notify listener item.ticket

/-- What is done with the progress of an item's job. -/
def onProgress (listener : Option (ItemListener κ)) (item : QueueItem) :
    ProgressListener (Desk κ) := fun value => do
  updateQueue (·.updateTicket item.ticket (·.advance (.real value)))
  notify listener item.ticket

/-- The job of an item. -/
def requestFor (directory : Path) (settings : Settings) (attachments : Attachments)
    (item : QueueItem) : JobRequest where
  id := item.id
  source := item.source
  settings := .record settings.record
  output := directory.child item.outputName
  attachments := attachments

/-- Keeps what became of an item's job. Only a failure of the export is a result of the item. -/
def settle (item : QueueItem) : Except Failure JobResult → Action (Caller (Desk κ)) Unit
  | .ok result => updateQueue (·.update item.id (succeeded result.output))
  | .error (.exportFailed cause tail) => updateQueue (·.update item.id (failed cause tail))
  | .error f => .raise f

/-- Exports an item. -/
def renderItem (e : Engine σ) (probe : DurationProbe (Desk κ)) (directory : Path)
    (settings : Settings) (attachments : Attachments) (listener : Option (ItemListener κ))
    (item : QueueItem) : Action (State σ κ) Unit := do
  announce listener item
  let request := requestFor directory settings attachments item
  settle (κ := κ) item (← (Job.run e probe request (some (onProgress listener item))).attempt)
  notify listener item.ticket

/-- Exports items in order; `position` is the place of the first of them among `total`. -/
def renderItems (e : Engine σ) (probe : DurationProbe (Desk κ)) (directory : Path)
    (settings : Settings) (attachments : Attachments) (listener : Option (ItemListener κ))
    (total : Nat) : Nat → List QueueItem → Action (State σ κ) Unit
  | _, [] => pure ()
  | position, item :: rest => do
    Host.log .info logSource s!"Processando item {position}/{total}: {item.source.name}"
    renderItem e probe directory settings attachments listener item
    renderItems e probe directory settings attachments listener total (position + 1) rest

/-- The item of a ticket that has been processed is done. -/
def isDone (q : Queue) (ticket : Nat) : Bool :=
  match q.ofTicket? ticket with
  | some item => item.status = .done
  | none => false

/-- Exports all items that are not done; gives the tickets of those that were processed. -/
def render (e : Engine σ) (probe : DurationProbe (Desk κ)) (directory : Path) (settings : Raw)
    (attachments : Attachments) (listener : Option (ItemListener κ)) :
    Action (State σ κ) (List Nat) := do
  if !(← begin? (κ := κ)) then return []
  let snapshot ← Action.ofNumeric (Settings.sanitize settings attachments.image.isSome)
  setBusy (κ := κ) true
  let work : Action (State σ κ) (List Nat) := do
    let items ← Action.read fun j : State σ κ => j.client.queue.pending
    Host.log .info logSource s!"Iniciando lote com {items.length} itens"
    renderItems e probe directory snapshot attachments listener items.length 1 items
    return items.map (·.ticket)
  let tickets ← work.ensuring (setBusy (κ := κ) false)
  let q ← Action.read fun j : State σ κ => j.client.queue
  let done := (tickets.filter (isDone q)).length
  Host.log .info logSource s!"Lote finalizado: {done}/{tickets.length} concluídos"
  return tickets

end Batch

end VideoExport
