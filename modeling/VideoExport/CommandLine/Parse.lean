import VideoExport.CommandLine.Options

/-!
# Reading the command line

`CommandLine.read` makes a request of the arguments, or a notice to the user: the help that was
asked for, or a complaint. Options come before the command; the arguments after it belong to the
command.
-/

set_option autoImplicit false

namespace VideoExport.CommandLine

/-- What the options before the command say. -/
structure Options where
  settings : Option String := none
  image : Option String := none
  font : Option String := none
  outputDirectory : Option String := none
  config : Option String := none
  logFile : String := "vtransform.log"
  debug : Bool := false
  deriving DecidableEq, Repr

/-- What is to be done. -/
inductive Task where
  | single (video : String)
  | several (videos : List String)
  deriving DecidableEq, Repr

/-- A complete command line. -/
structure Request where
  options : Options
  task : Task
  deriving DecidableEq, Repr

/-- What the user is told instead of an answer to a request; it concerns the program or one of its
commands. -/
inductive Notice where
  | help (command : Option Verb)
  | complaint (command : Option Verb) (c : Complaint)
  deriving DecidableEq, Repr

namespace Options

/-- The options with the value of one of them. -/
def put (o : Options) (t : Topic) (value : String) : Options :=
  match t with
  | .settings => { o with settings := some value }
  | .image => { o with image := some value }
  | .font => { o with font := some value }
  | .outputDirectory => { o with outputDirectory := some value }
  | .config => { o with config := some value }
  | .logFile => { o with logFile := value }
  | .help | .debug => o

end Options

/-! ## Options without a value -/

/-- What letters after a short help option mean: the same option again and again, or else a value
that is not wanted. -/
def helpCluster (command : Option Verb) : List Char → Notice
  | [] => .help command
  | 'h' :: rest => helpCluster command rest
  | rest => .complaint command (.valueIgnored helpSwitch (String.ofList rest))

/-- The notice that a value attached to an option without one leads to. -/
def unwantedValue (command : Option Verb) (s : Switch) (a : Attached) : Notice :=
  if a.clustered && !a.value.isEmpty then helpCluster command a.value.toList
  else .complaint command (.valueIgnored s a.value)

/-! ## Before the command -/

/-- What precedes the command, the arguments that are no options there, and the rest. -/
structure Opening where
  options : Options
  strangers : List String
  rest : List String

/-- Reads the options up to the command. -/
def readOpening (o : Options) (strangers : List String) : List Token → Except Notice Opening
  | [] => .ok ⟨o, strangers, []⟩
  | t :: rest =>
    match t.kind with
    | .word => .ok ⟨o, strangers, t.text :: rest.map (·.text)⟩
    | .separator =>
      if rest.isEmpty then .ok ⟨o, strangers ++ [t.text], []⟩
      else .ok ⟨o, strangers, t.text :: rest.map (·.text)⟩
    | .stranger => readOpening o (strangers ++ [t.text]) rest
    | .switch s (some a) =>
      if s.takesValue then readOpening (o.put s.topic a.wanted) strangers rest
      else .error (unwantedValue none s a)
    | .switch s none =>
      if s.takesValue then
        match rest with
        | ⟨value, .word⟩ :: more => readOpening (o.put s.topic value) strangers more
        | _ => .error (.complaint none (.valueMissing s))
      else match s.topic with
        | .help => .error (.help none)
        | _ => readOpening { o with debug := true } strangers rest

/-! ## After the command -/

/-- How far the reading of a command's operands has come. -/
inductive Stage where
  /-- None has been read. -/
  | awaiting
  /-- The argument before was one. -/
  | reading
  | finished
  deriving DecidableEq, Repr

/-- A command's operands, and the arguments that are none. -/
structure Operands where
  videos : List String := []
  strangers : List String := []

namespace Operands

def add (o : Operands) (video : String) : Operands := { o with videos := o.videos ++ [video] }

def reject (o : Operands) (s : String) : Operands := { o with strangers := o.strangers ++ [s] }

end Operands

/-- Whether a command takes another operand. -/
def Verb.accepts (c : Verb) : Stage → Bool
  | .awaiting => true
  | .reading => c = .several
  | .finished => false

/-- The stage after an option. -/
def Stage.interrupted : Stage → Stage
  | .awaiting => .awaiting
  | _ => .finished

/-- Reads the operands of a command: one, or several in a row. -/
def readOperands (c : Verb) (o : Operands) (stage : Stage) : List Token → Except Notice Operands
  | [] => .ok o
  | t :: rest =>
    match t.kind with
    | .word =>
      if c.accepts stage then readOperands c (o.add t.text) .reading rest
      else readOperands c (o.reject t.text) .finished rest
    | .separator =>
      if stage = .finished || (stage = .awaiting && rest.isEmpty) then
        readOperands c (o.reject t.text) stage rest
      else readOperands c o (if c.accepts stage then stage else .finished) rest
    | .stranger => readOperands c (o.reject t.text) stage.interrupted rest
    | .switch s (some a) => .error (unwantedValue (some c) s a)
    | .switch _ none => .error (.help (some c))

/-- The task that the operands of a command make. -/
def Verb.task? (c : Verb) (videos : List String) : Option Task :=
  match videos with
  | [] => none
  | first :: _ => match c with
    | .single => some (.single first)
    | .several => some (.several videos)

/-- Reads the command line. -/
def read (arguments : List String) : Except Notice Request := do
  let tokens ← (scan globalSwitches arguments).mapError (.complaint none)
  let opening ← readOpening {} [] tokens
  match opening.rest with
  | [] => throw (.complaint none (.missing "command"))
  | name :: rest =>
    match Verb.ofName? name with
    | none => throw (.complaint none (.unknownCommand name))
    | some c =>
      let tokens ← (scan commandSwitches rest).mapError (.complaint (some c))
      let operands ← readOperands c {} .awaiting tokens
      match c.task? operands.videos with
      | none => throw (.complaint (some c) (.missing c.operand))
      | some task =>
        match opening.strangers ++ operands.strangers with
        | [] => return ⟨opening.options, task⟩
        | strangers => throw (.complaint none (.unrecognized strangers))

end VideoExport.CommandLine
