import VideoExport.Action
import VideoExport.Host.FileTree
import VideoExport.Host.Journal

/-!
# The host

What the program uses of the machine it runs on: files, environment, time, new identifiers, programs
that it starts, servers that it asks, and the journal of what it writes. How programs and servers
answer is laid down in scripts: lists that are consumed in order and whose last entry repeats.
-/

set_option autoImplicit false

namespace VideoExport

/-- Lines ended in one way, whichever way they were ended. -/
def Text.unifyLines : List Char → List Char
  | '\r' :: '\n' :: rest => '\n' :: unifyLines rest
  | '\r' :: rest => '\n' :: unifyLines rest
  | c :: rest => c :: unifyLines rest
  | [] => []

/-- The next entry of a script and the script after it. -/
def nextOf {α : Type} (script : List α) (fallback : α) : α × List α :=
  match script with
  | [] => (fallback, [])
  | [a] => (a, [a])
  | a :: rest => (a, rest)

/-- How a program that is run to its end behaves. -/
inductive ProgramRun where
  | prints (output : String)
  /-- There is no such program. -/
  | missing
  /-- It ends with a code other than zero. -/
  | fails (code : Int)
  /-- It is stopped at its time limit. -/
  | overtime
  /-- It never ends. -/
  | hangs
  deriving Repr

/-- A line of a running program. -/
inductive ProcessStep where
  | output (line : String)
  | error (line : String)
  /-- The program stays silent for ever. -/
  | hang
  deriving DecidableEq, Repr

/-- How an encoding program behaves: its lines in order of arrival, its code, and how many octets it
writes into the file that its last argument names. -/
structure ProcessScript where
  missing : Bool := false
  steps : List ProcessStep := []
  code : Int := 0
  written : Option Nat := none
  deriving Repr

/-- How a server answers. -/
inductive WebReply where
  | unreachable (reason : String)
  | reply (status : Int) (reason : String) (content : ByteArray)

/-- The start of a program. -/
inductive ProgramCall where
  /-- Run to its end within a limit. -/
  | run (command : List String) (limit : Option Number)
  /-- Started in a directory. -/
  | started (command : List String) (directory : String)

/-- The machine that the program runs on. -/
structure Host where
  files : FileTree := {}
  environment : List (String × String) := []
  now : Instant := ⟨0⟩
  /-- Seconds on the clock that time limits are measured with. -/
  clock : Binary64 := .zero false
  /-- Random identifiers, as hexadecimal texts, and how many have been drawn. -/
  identifiers : List String := []
  drawn : Nat := 0
  /-- Scripts of the version check, the probe and the encoder. -/
  versions : List ProgramRun := []
  probes : List ProgramRun := []
  processes : List ProcessScript := []
  calls : List ProgramCall := []
  /-- For every started program, whether it was killed. -/
  killed : List Bool := []
  web : List WebReply := []
  requests : List (String × Number) := []
  /-- Number of temporary directories made. -/
  temporaries : Nat := 0
  journal : Journal := []

namespace Host

/-! ## Journal and time -/

def append (e : Journal.Entry) : Action Host Unit :=
  .modify fun h => { h with journal := h.journal ++ [e] }

/-- Makes a record in the log of a part of the program. -/
def log (level : Level) (source message : String) : Action Host Unit :=
  append (.record ⟨level, .part source, message⟩)

/-- Writes on the console's output. -/
def print (text : String) : Action Host Unit := append (.output text)

/-- Writes on the console's error stream. -/
def printError (text : String) : Action Host Unit := append (.errorOutput text)

/-- The text of the current time, as it is written into metadata. -/
def currentTime (h : Host) : Except Failure String :=
  if h.now.isDated then .ok h.now.iso else .error .dateOutOfRange

/-- Lets seconds pass on the clock. -/
def elapse (seconds : Binary64) : Action Host Unit :=
  .modify fun h => { h with clock := h.clock.add seconds }

/-! ## Identifiers -/

/-- Hexadecimal digits of a random identifier. -/
def identifierDigits : Nat := 32

/-- Brings the text of an identifier to its full length, with small digits. -/
def fullIdentifier (s : String) : String :=
  String.ofList (s.toList.map Char.toLower) ++ Binary64.zeros (identifierDigits - s.length)

/-- The identifier that is drawn when none is laid down: it counts the ones drawn so far. -/
def countedIdentifier (n : Nat) : String := fullIdentifier (String.ofList (Text.hexDigits 8 n))

/-- Draws a random identifier. -/
def drawIdentifier : Action Host String := fun h =>
  match h.identifiers with
  | id :: rest =>
    (.returned (fullIdentifier id), { h with identifiers := rest, drawn := h.drawn + 1 })
  | [] => (.returned (countedIdentifier (h.drawn + 1)), { h with drawn := h.drawn + 1 })

/-! ## Files -/

/-- Whether a path holds a character that no path may hold. -/
def hasNull (path : String) : Bool := path.toList.contains (Char.ofNat 0)

/-- A question about the file that a path leads to. -/
def ask {α : Type} (path : String) (question : FileTree → Except FileFault α) : Action Host α :=
  fun h =>
    if hasNull path then (.raised .nullCharacter, h)
    else match question h.files with
      | .ok a => (.returned a, h)
      | .error fault => (.raised (.file fault path), h)

/-- A change of the files at a path. -/
def change (path : String) (f : FileTree → Except FileFault FileTree) : Action Host Unit :=
  fun h =>
    if hasNull path then (.raised .nullCharacter, h)
    else match f h.files with
      | .ok files => (.returned (), { h with files })
      | .error fault => (.raised (.file fault path), h)

/-- What stands under a path. -/
def node (path : String) : Action Host FileNode := ask path (·.node path)

def readFile (path : String) : Action Host ByteArray :=
  ask path fun t => (t.file path).map (·.content)

def writeFile (path : String) (content : ByteArray) : Action Host Unit :=
  change path (·.write path content)

/-- Writes text at the end of a file, which is made if need be. -/
def appendFile (path text : String) : Action Host Unit :=
  change path fun t => do
    let before := match t.file path with
      | .ok f => f.content
      | .error _ => .empty
    t.write path (before ++ text.toUTF8)

def unlink (path : String) : Action Host Unit := change path (·.unlink path)

/-- Size in octets that the system tells of a directory. -/
def directorySize : Nat := 4096

/-- Size in octets of what stands under a path. -/
def size (path : String) : Action Host Nat := do
  match ← node path with
  | .file f => return f.content.size
  | .directory => return directorySize

/-- Whether something exists under a path. A path that cannot be followed leads to nothing, unless a
name in it is too long. -/
def pathExists (path : String) : Action Host Bool := fun h =>
  if hasNull path then (.returned false, h)
  else match h.files.node path with
    | .ok _ => (.returned true, h)
    | .error .nameTooLong => (.raised (.file .nameTooLong path), h)
    | .error _ => (.returned false, h)

/-- Whether a path leads to a file. A path that cannot be followed leads to none, unless a name in
it is too long. -/
def isFile (path : String) : Action Host Bool := fun h =>
  if hasNull path then (.returned false, h)
  else match h.files.node path with
    | .ok (.file _) => (.returned true, h)
    | .error .nameTooLong => (.raised (.file .nameTooLong path), h)
    | _ => (.returned false, h)

/-- The text of a file. Its lines are ended in one way, whichever way they were ended. -/
def readText (path : String) (encoding : Text.Encoding) : Action Host String := do
  let content ← readFile path
  let s ← Action.ofExcept ((encoding.decode content.toList).mapError .notText)
  return String.ofList (Text.unifyLines s.toList)

/-- Makes a directory and those above it, innermost last. A directory that exists already will do.
The fuel is the number of names. -/
def makeDirectories (p : Path) : Nat → Action Host Unit
  | 0 => pure ()
  | fuel + 1 => do
    let make : Action Host Unit := change p.toString (·.makeDirectory p.toString)
    let accept (f : Failure) : Action Host Unit := do
      let h ← Action.get
      if f.isSystem && h.files.isDirectory p.toString then pure () else .raise f
    match ← make.attempt with
    | .ok () => pure ()
    | .error (.file .notFound path) =>
      if p.parts.isEmpty then .raise (.file .notFound path)
      else
        makeDirectories p.parent fuel
        match ← make.attempt with
        | .ok () => pure ()
        | .error f => accept f
    | .error f => accept f

/-- Makes the directory of a path. -/
def ensureDirectory (p : Path) : Action Host Unit := makeDirectories p (p.parts.length + 1)

/-- The name of a temporary directory. -/
def temporaryName (n : Nat) : String := s!"vtransform_tmp{Binary64.digitText n}"

/-- Makes a new temporary directory and gives its path. -/
def makeTemporary : Action Host Path := do
  let h ← Action.get
  let name := temporaryName (h.temporaries + 1)
  .modify fun h => { h with temporaries := h.temporaries + 1 }
  change name (·.makeDirectory name)
  return .ofString name

/-- Removes a directory with everything in it, as far as that goes. -/
def removeTree (p : Path) : Action Host Unit :=
  .modify fun h => { h with files := h.files.removeDirectory p.toString }

/-! ## Programs -/

/-- The directory of an entry of the search path joined with the name of a program. -/
def programIn (directory name : String) : String :=
  if directory.isEmpty then name
  else if directory.toList.getLast? = some '/' then directory ++ name
  else directory ++ "/" ++ name

/-- The directories of the search path. -/
def searchPath (h : Host) : List String :=
  match h.environment.lookup "PATH" with
  | none => []
  | some s => if s.isEmpty then [] else ((s.splitOn ":"))

/-- Whether a path leads to a file that may be run. -/
def isProgram (h : Host) (path : String) : Bool :=
  match h.files.node path with
  | .ok (.file f) => f.executable
  | _ => false

/-- The path of a program: the one that is given, or else the first on the search path, or else its
bare name. -/
def resolveProgram (h : Host) (explicit : Option String) (name : String) : String :=
  match explicit.filter (!·.isEmpty) with
  | some path => path
  | none => ((h.searchPath.map (programIn · name)).find? h.isProgram).getD name

/-- How a run of a program ends. -/
def endRun (command : List String) (limit : Option Number) : ProgramRun → Action Host String
  | .prints output => pure output
  | .missing => .raise (.programMissing (command.headD ""))
  | .fails code => .raise (.program command (.code code))
  | .overtime => .raise (.program command (.overtime limit))
  | .hangs => .stall

/-- Runs the version check of a program. -/
def runVersion (command : List String) (limit : Option Number) : Action Host String := do
  let h ← Action.get
  let (outcome, rest) := nextOf h.versions (.prints "")
  .modify fun h => { h with versions := rest, calls := h.calls ++ [.run command limit] }
  endRun command limit outcome

/-- Runs a probe of a media file. -/
def runProbe (command : List String) (limit : Option Number) : Action Host String := do
  let h ← Action.get
  let (outcome, rest) := nextOf h.probes .missing
  .modify fun h => { h with probes := rest, calls := h.calls ++ [.run command limit] }
  endRun command limit outcome

/-- A program that was started: its place among all that were, and how it will behave. -/
structure Process where
  number : Nat
  directory : String
  command : List String
  script : ProcessScript

/-- Starts a program in a directory. -/
def start (command : List String) (directory : String) : Action Host Process := do
  let h ← Action.get
  let (script, rest) := nextOf h.processes {}
  .modify fun h => { h with processes := rest, calls := h.calls ++ [.started command directory] }
  if script.missing then .raise (.programMissing (command.headD ""))
  else
    .modify fun h => { h with killed := h.killed ++ [false] }
    return { number := h.killed.length, directory, command, script }

/-- Marks a started program as killed. -/
def markKilled (number : Nat) (h : Host) : Host := { h with killed := h.killed.set number true }

/-! ## Servers -/

/-- Asks a server for a document. -/
def download (url : String) (limit : Number) : Action Host ByteArray := do
  let h ← Action.get
  let (reply, rest) := nextOf h.web (.unreachable "offline")
  .modify fun h => { h with web := rest, requests := h.requests ++ [(url, limit)] }
  match reply with
  | .unreachable reason => .raise (.offline reason)
  | .reply status reason content =>
    if 400 ≤ status && status < 600 then .raise (.httpStatus status reason url) else return content

end Host

/-- A state with a host in it. -/
class Hosted (ω : Type) where
  host : ω → Host
  withHost : ω → Host → ω

/-- Work on the host of a larger state. -/
def Action.onHost {ω α : Type} [Hosted ω] (x : Action Host α) : Action ω α :=
  .zoom Hosted.host Hosted.withHost x

instance {ω : Type} [Hosted ω] : MonadLift (Action Host) (Action ω) where
  monadLift := Action.onHost

end VideoExport
