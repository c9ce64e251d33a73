import VideoExport.Operand
import VideoExport.Text.Blank
import VideoExport.Text.Numeral

/-!
# Progress

What an engine tells while it works, and the progress shown for it. A raw number is a fraction, a
percentage or something else, which its size tells (`Progress.ofNumber`); `Progress.Tracker` keeps
the largest fraction seen, so that the progress shown never falls.
-/

set_option autoImplicit false

namespace VideoExport

/-- A report of an engine; usually one of its fields holds a number. -/
structure ProgressReport where
  progress : Value := .null
  ratio : Value := .null
  time : Value := .null

/-- What an engine emits while it works. -/
inductive EngineEvent where
  /-- A line of its log. -/
  | log (message : String)
  | progress (report : ProgressReport)
  /-- Something that is neither. -/
  | other (v : Value)

namespace Binary64

/-- The number one. -/
def one : Binary64 := ofInt 1

/-- `x` brought into the range from zero to one; a number that is unordered counts as one. -/
def clampUnit (x : Binary64) : Binary64 :=
  let atMostOne := if (Number.real x).lt (.real one) then x else one
  if (Number.real (zero false)).lt (.real atMostOne) then atMostOne else zero false

/-- The larger of two numbers; the first if neither is larger. -/
def greatest (x y : Binary64) : Binary64 := if (Number.real x).lt (.real y) then y else x

end Binary64

/-- The number of a value; a switch is none. -/
def Value.number? : Value → Option Number
  | .number n => some n
  | _ => none

namespace ProgressReport

/-- The number of a report: the first of its fields that holds one. -/
def number? (r : ProgressReport) : Option Number :=
  r.progress.number? <|> r.ratio.number? <|> r.time.number?

/-- The report that the entries of a map make. -/
def ofEntries (entries : List (String × Value)) : ProgressReport where
  progress := (entries.lookup "progress").getD .null
  ratio := (entries.lookup "ratio").getD .null
  time := (entries.lookup "time").getD .null

end ProgressReport

namespace Progress

/-- The number that a bare value carries: its own, or that of the report that a map makes. -/
def valueNumber? : Value → Option Number
  | .number n => some n
  | .map entries => (ProgressReport.ofEntries entries).number?
  | _ => none

/-- The number that an event carries. -/
def eventNumber? : EngineEvent → Option Number
  | .log _ => none
  | .progress r => r.number?
  | .other v => valueNumber? v

/-- The largest number that counts as a fraction; a little more than one is taken for one. -/
def fractionLimit : Number := .decimal 1000001 6

/-- The fraction that a raw number stands for: up to one it is one already, up to a hundred it is a
percentage, and beyond that it says nothing. -/
def ofNumber (n : Number) : Except NumericError Binary64 := do
  let x ← n.toReal
  if !x.isFinite then return .zero false
  else if n.le fractionLimit then return x.clampUnit
  else if n.le 100 then
    return (← (← n.div 100).toReal).clampUnit
  else return .zero false

/-- The fraction shown for a number, or for the lack of one. -/
def normalize : Option Number → Except NumericError Binary64
  | none => .ok (.zero false)
  | some n => ofNumber n

/-- The largest fraction seen and what was shown after each event. -/
structure Tracker where
  value : Binary64 := .zero false
  history : List Binary64 := []

/-- The tracker after a number, or after an event without one. -/
def Tracker.update (t : Tracker) (n : Option Number) : Except NumericError Tracker := do
  let value := Binary64.greatest t.value (← normalize n)
  return ⟨value, t.history ++ [value]⟩

/-! ## Progress lines -/

/-- Key and value of a line, separated by its first equals sign. -/
def splitLine (line : String) : Option (String × String) :=
  let chars := line.toList
  if chars.contains '=' then
    some (String.ofList (chars.takeWhile (· ≠ '=')),
      String.ofList ((chars.dropWhile (· ≠ '=')).drop 1))
  else none

/-- What a progress line says. -/
inductive Line where
  /-- The encoder has ended. -/
  | ended
  /-- The time up to which the output has come. -/
  | time (microseconds : Int)
  deriving DecidableEq, Repr

/-- What a line says, if it is about progress. Times come in microseconds. -/
def Line.ofText? (line : String) : Option Line := do
  let (key, value) ← splitLine line
  if key = "progress" && value = "end" then return .ended
  else if key = "out_time_us" || key = "out_time_ms" then
    return .time (← Text.readInteger? value)
  else none

/-- Seconds of a time. -/
def seconds (microseconds : Int) : Except NumericError Number :=
  (Number.int microseconds).div 1000000

/-- The report that a progress line of the encoder makes, for a source of a length in seconds.
Without a length there is no fraction, and only the end counts. -/
def parseLine (line : String) (duration : Number) : Except NumericError (Option ProgressReport) :=
  match Line.ofText? line with
  | none => .ok none
  | some .ended => .ok (some { ratio := .number (.real .one) })
  | some (.time microseconds) => do
    let time ← seconds microseconds
    if duration.le 0 then return none
    else return some { ratio := .number (Number.least (.real .one) (← time.div duration)) }

/-- The report of a line for a length, both of any kind. A line that counts as false says
nothing. -/
def parseValue (line duration : Value) : Except Failure (Option ProgressReport) := do
  if !line.isTruthy then return none
  if !(← line.containsText "=") then return none
  match line with
  | .text s =>
    if let some (.time microseconds) := Line.ofText? s then
      let _ ← (seconds microseconds).mapError .numeric
      duration.checkComparison "<=" 0
    (parseLine s (duration.asNumber?.getD 0)).mapError .numeric
  | v => throw (.misuse (.part v.kindName "split"))

end Progress

end VideoExport
