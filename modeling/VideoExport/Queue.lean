import VideoExport.Media.Basic

/-!
# The export queue

A queue holds the files of a batch in order, each with its status and its outcome. An item is
addressed in two ways: by its identifier, which finds the first item of that identifier, and by its
ticket, which no other item of the queue ever had.
-/

set_option autoImplicit false

namespace VideoExport

/-- Where an item stands. -/
inductive QueueStatus where
  | pending
  | processing
  | done
  | error
  deriving DecidableEq, Repr

namespace QueueStatus

def name : QueueStatus → String
  | .pending => "pending"
  | .processing => "processing"
  | .done => "done"
  | .error => "error"

def all : List QueueStatus := [.pending, .processing, .done, .error]

/-- The status that a value names. -/
def ofValue (v : Value) : Except Failure QueueStatus :=
  match all.find? fun status => v.isText status.name with
  | some status => .ok status
  | none => .error (.notChoice v "QueueStatus")

/-- Whether a status is an outcome. -/
def isTerminal : QueueStatus → Bool
  | .done => true
  | .error => true
  | _ => false

end QueueStatus

/-- A file to export and what became of it. -/
structure QueueItem where
  ticket : Nat
  id : String
  source : MediaFile
  status : QueueStatus := .pending
  progress : Number := .real (.zero false)
  output : Option Path := none
  message : Option String := none
  history : List Number := []

/-- Changes of an item; a field that is absent stays. -/
structure ItemChange where
  id : Option String := none
  status : Option QueueStatus := none
  progress : Option Number := none
  output : Option (Option Path) := none
  message : Option (Option String) := none
  history : Option (List Number) := none

namespace QueueItem

/-- The item with changes. -/
def apply (item : QueueItem) (c : ItemChange) : QueueItem := { item with
  id := c.id.getD item.id
  status := c.status.getD item.status
  progress := c.progress.getD item.progress
  output := c.output.getD item.output
  message := c.message.getD item.message
  history := c.history.getD item.history }

/-- The item with a new progress, which its history keeps. -/
def advance (item : QueueItem) (value : Number) : QueueItem :=
  { item with progress := value, history := item.history ++ [value] }

/-- The name of the file that a batch makes of the item. -/
def outputName (item : QueueItem) : String := s!"processed_{item.id}_{item.source.path.stem}.mp4"

end QueueItem

/-- Items in the order in which they were added. -/
structure Queue where
  items : List QueueItem := []
  /-- Items that were taken off the queue. -/
  removed : List QueueItem := []
  /-- Number of tickets given out. -/
  tickets : Nat := 0
  /-- The largest size of a file, in octets. -/
  maxSize : Option Number := none
  /-- Paths that were not added. -/
  skipped : List Path := []

namespace Queue

/-- The first item of an identifier. -/
def get? (q : Queue) (id : String) : Option QueueItem := q.items.find? fun item => item.id = id

/-- Changes the first item of a list for which a test holds. -/
def changeFirst (test : QueueItem → Bool) (f : QueueItem → QueueItem) :
    List QueueItem → List QueueItem
  | [] => []
  | item :: rest => if test item then f item :: rest else item :: changeFirst test f rest

/-- Changes the first item of an identifier. -/
def update (q : Queue) (id : String) (c : ItemChange) : Queue :=
  { q with items := changeFirst (fun item => item.id = id) (·.apply c) q.items }

/-- The item of a ticket, on the queue or taken off it. -/
def ofTicket? (q : Queue) (ticket : Nat) : Option QueueItem :=
  (q.items ++ q.removed).find? fun item => item.ticket = ticket

/-- The items of tickets. -/
def ofTickets (q : Queue) (tickets : List Nat) : List QueueItem := tickets.filterMap q.ofTicket?

/-- Changes the item of a ticket. -/
def updateTicket (q : Queue) (ticket : Nat) (f : QueueItem → QueueItem) : Queue :=
  let change := changeFirst (fun item => item.ticket = ticket) f
  { q with items := change q.items, removed := change q.removed }

/-- Takes off all items of an identifier. -/
def remove (q : Queue) (id : String) : Queue :=
  { q with
    items := q.items.filter fun item => item.id ≠ id
    removed := q.removed ++ q.items.filter fun item => item.id = id }

/-- Takes off all items. -/
def clear (q : Queue) : Queue := { q with items := [], removed := q.removed ++ q.items }

/-- The items that are not done. -/
def pending (q : Queue) : List QueueItem := q.items.filter fun item => item.status ≠ .done

/-- Appends an item. -/
def push (q : Queue) (id : String) (source : MediaFile) : Queue :=
  let item := ⟨q.tickets, id, source, .pending, .real (.zero false), none, none, []⟩
  { q with items := q.items ++ [item], tickets := q.tickets + 1 }

/-- Notes a path that is not added. -/
def skip (q : Queue) (path : Path) : Queue := { q with skipped := q.skipped ++ [path] }

/-- Whether a file is larger than allowed. -/
def exceeds (q : Queue) (size : Nat) : Bool :=
  match q.maxSize with
  | some limit => limit.lt (.int size)
  | none => false

end Queue

/-- Digits of a random identifier that identify an item. -/
def itemIdDigits : Nat := 8

/-- Draws an identifier for an item. -/
def Host.drawItemId : Action Host String := do
  let id ← Host.drawIdentifier
  return String.ofList (id.toList.take itemIdDigits)

namespace Queue

/-- A host and a queue. -/
abbrev Shelf := Host × Queue

instance : Hosted Shelf where
  host := (·.1)
  withHost s h := (h, s.2)

def warn (message : String) : Action Shelf Unit := Host.log .warning "ExportQueue" message

/-- Adds a file, unless it cannot be read or is too large; the path is followed as it is written. -/
def addPath (written : String) : Action Shelf (Option Nat) := do
  let source := MediaFile.ofString written
  match ← (Action.onHost (Host.size written) : Action Shelf Nat).attempt with
  | .error f =>
    if f.isSystem then
      warn s!"Ignorando {source.name}: {f.message}"
      Action.modify fun s => (s.1, s.2.skip source.path)
      return none
    else Action.raise f
  | .ok size =>
    if (← Action.read fun s : Shelf => s.2.exceeds size) then
      warn s!"Ignorando {source.name}: maior que o limite de entrada"
      Action.modify fun s => (s.1, s.2.skip source.path)
      return none
    else
      let id ← Host.drawItemId
      let ticket ← Action.read fun s : Shelf => s.2.tickets
      Action.modify fun s => (s.1, s.2.push id source)
      return some ticket

/-- Adds files in order; the tickets of those that were added. -/
def add : List String → Action Shelf (List Nat)
  | [] => pure []
  | path :: rest => do
    let first ← addPath path
    return first.toList ++ (← add rest)

end Queue

end VideoExport
