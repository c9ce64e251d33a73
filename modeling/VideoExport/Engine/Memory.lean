import VideoExport.Engine.Basic
import VideoExport.Text.Search

/-!
# An engine in memory

An engine whose storage is a list and whose behaviour is laid down in scripts: how each load goes,
what each execution emits and writes, and which names cannot be written, read or deleted. It keeps a
record of the calls that it gets.
-/

set_option autoImplicit false

namespace VideoExport

/-- A failure of the operations on names that hold a text. -/
structure NameFault where
  part : String
  failure : Failure

/-- How a load goes. -/
inductive LoadScript where
  | succeeds
  | raises (f : Failure)
  | hangs

/-- What an execution does next. -/
inductive ExecutionStep where
  | emits (e : EngineEvent)
  | raises (f : Failure)
  | hangs

/-- What an execution does, and the size of the output that it writes if it comes to its end. -/
structure ExecutionScript where
  steps : List ExecutionStep := []
  output : Option Nat := some 1024

/-- What became of a call. -/
inductive CallMark where
  | refused
  | missing
  deriving DecidableEq, Repr

/-- A call of the engine. -/
inductive EngineCall where
  | load
  | write (name : String) (size : Nat) (mark : Option CallMark)
  | read (name : String) (mark : Option CallMark)
  | delete (name : String) (mark : Option CallMark)
  | execute (arguments : List String)
  | reset
  deriving DecidableEq, Repr

/-- The state of the engine. -/
structure MemoryEngine where
  loaded : Bool := false
  files : List (String × ByteArray) := []
  loads : List LoadScript := []
  executions : List ExecutionScript := []
  writeFaults : List NameFault := []
  readFaults : List NameFault := []
  deleteFaults : List NameFault := []
  calls : List EngineCall := []

namespace MemoryEngine

/-- Puts an entry into a list in place of one of its name. -/
def putFile (files : List (String × ByteArray)) (name : String) (content : ByteArray) :
    List (String × ByteArray) :=
  files.filter (fun e => e.1 ≠ name) ++ [(name, content)]

/-- The first fault whose text is part of a name. -/
def fault? (faults : List NameFault) (name : String) : Option Failure :=
  (faults.find? fun f => Text.occursIn f.part.toList name.toList).map (·.failure)

/-- Keeps a record of a call. -/
def record (call : EngineCall) : Action (World MemoryEngine) Unit :=
  .modify fun w => { w with engine := { w.engine with calls := w.engine.calls ++ [call] } }

def load : Action (World MemoryEngine) Unit := do
  record .load
  let w ← Action.get
  let (script, rest) := nextOf w.engine.loads .succeeds
  .modify fun w => { w with engine := { w.engine with loads := rest } }
  match script with
  | .succeeds => .modify fun w => { w with engine := { w.engine with loaded := true } }
  | .raises f => .raise f
  | .hangs => .stall

def write (name : String) (content : ByteArray) : Action (World MemoryEngine) Unit := do
  let w ← Action.get
  match fault? w.engine.writeFaults name with
  | some f =>
    record (.write name content.size (some .refused))
    .raise f
  | none =>
    record (.write name content.size none)
    .modify fun w =>
      { w with engine := { w.engine with files := putFile w.engine.files name content } }

def read (name : String) : Action (World MemoryEngine) ByteArray := do
  let w ← Action.get
  match fault? w.engine.readFaults name with
  | some f =>
    record (.read name (some .refused))
    .raise f
  | none =>
    record (.read name none)
    match w.engine.files.lookup name with
    | some content => return content
    | none => .raise (.entryMissing name)

def delete (name : String) : Action (World MemoryEngine) Unit := do
  let w ← Action.get
  match fault? w.engine.deleteFaults name with
  | some f =>
    record (.delete name (some .refused))
    .raise f
  | none =>
    match w.engine.files.lookup name with
    | some _ =>
      record (.delete name none)
      .modify fun w => { w with engine := {
        w.engine with files := w.engine.files.filter fun e => e.1 ≠ name } }
    | none =>
      record (.delete name (some .missing))
      .raise (.entryMissing name)

/-- Octets of zero. -/
def zeroBytes (n : Nat) : ByteArray := ⟨Array.replicate n 0⟩

/-- The end of an execution: its output is written under its last argument. -/
def writeOutput (arguments : List String) (size : Option Nat) : Action (World MemoryEngine) Unit :=
  .modify fun w =>
    match arguments.getLast?, size with
    | some name, some n => { w with engine := {
        w.engine with files := putFile w.engine.files name (zeroBytes n) } }
    | _, _ => w

/-- The execution of steps, with the end that follows the last. -/
def executionOf (finish : Action (World MemoryEngine) Unit) :
    List ExecutionStep → Execution (World MemoryEngine) EngineEvent
  | [] => ⟨[], finish⟩
  | .emits e :: rest => (executionOf finish rest).prepend [{ event := e }]
  | .raises f :: _ => ⟨[], .raise f⟩
  | .hangs :: _ => ⟨[], .stall⟩

def execute (arguments : List String) :
    Action (World MemoryEngine) (Execution (World MemoryEngine) EngineEvent) := do
  record (.execute arguments)
  let w ← Action.get
  let (script, rest) := nextOf w.engine.executions {}
  .modify fun w => { w with engine := { w.engine with executions := rest } }
  return executionOf (writeOutput arguments script.output) script.steps

def reset : Action (World MemoryEngine) Unit := do
  record .reset
  .modify fun w => { w with engine := { w.engine with files := [], loaded := false } }

/-- The operations of the engine in memory. -/
def engine : Engine MemoryEngine where
  isLoaded := (·.loaded)
  load := load
  write := write
  read := read
  delete := delete
  execute := execute
  reset := reset

end MemoryEngine

end VideoExport
