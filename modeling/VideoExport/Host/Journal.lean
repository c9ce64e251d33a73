import VideoExport.Host.Instant

/-!
# Journal

What the program writes while it runs, in order: records of its log, and text on the two streams of
the console.
-/

set_option autoImplicit false

namespace VideoExport

/-- How grave a record is. -/
inductive Level where
  | debug
  | info
  | warning
  | error
  deriving DecidableEq, Repr

namespace Level

def name : Level → String
  | .debug => "DEBUG"
  | .info => "INFO"
  | .warning => "WARNING"
  | .error => "ERROR"

/-- Place of a level in the order of gravity. -/
def rank : Level → Nat
  | .debug => 0
  | .info => 1
  | .warning => 2
  | .error => 3

/-- Whether a level is at least as grave as another. -/
def atLeast (l threshold : Level) : Bool := threshold.rank ≤ l.rank

end Level

/-- What made a record. -/
inductive LogSource where
  /-- A part of the program. -/
  | part (name : String)
  /-- The reader of environment files, whose log is not the program's own. -/
  | environmentFile
  deriving DecidableEq, Repr

/-- A record of the log. -/
structure LogRecord where
  level : Level
  source : LogSource
  message : String
  deriving DecidableEq, Repr

namespace LogRecord

/-- The name of the log that holds a record. -/
def logName (r : LogRecord) : String :=
  match r.source with
  | .part name => s!"vtransform.{name}"
  | .environmentFile => "dotenv.main"

/-- Whether a record is in the program's own log. -/
def isOwn (r : LogRecord) : Bool := r.source != .environmentFile

/-- A line of a log file. -/
def line (r : LogRecord) (now : Instant) : String :=
  s!"{now.stamp} - {r.logName} - {r.level.name} - {r.message}\n"

end LogRecord

namespace Journal

/-- An entry of the journal. -/
inductive Entry where
  | record (r : LogRecord)
  /-- Text on the console's output. -/
  | output (text : String)
  /-- Text on the console's error stream. -/
  | errorOutput (text : String)
  deriving DecidableEq, Repr

/-- The record of an entry, if it is one at least as grave as a level. -/
def Entry.record? (threshold : Level) : Entry → Option LogRecord
  | .record r => if r.level.atLeast threshold then some r else none
  | _ => none

end Journal

/-- Entries in the order in which they were written. -/
abbrev Journal := List Journal.Entry

/-- The records at least as grave as a level. -/
def Journal.records (j : Journal) (threshold : Level) : List LogRecord :=
  j.filterMap (Journal.Entry.record? threshold)

/-- The records of the program's own log at least as grave as a level. -/
def Journal.ownRecords (j : Journal) (threshold : Level) : List LogRecord :=
  (j.records threshold).filter LogRecord.isOwn

namespace Journal

/-- What a log file shows of a journal. -/
def fileText (j : Journal) (threshold : Level) (now : Instant) : String :=
  String.join ((j.records threshold).map (·.line now))

/-- What the console's output shows of an entry: text, and grave records. -/
def Entry.consoleText (now : Instant) : Entry → String
  | .output text => text
  | .record r => if r.level.atLeast .warning then r.line now else ""
  | .errorOutput _ => ""

/-- What the console's output shows. -/
def console (j : Journal) (now : Instant) : String := String.join (j.map (Entry.consoleText now))

/-- What the console's error stream shows of an entry. -/
def Entry.errorText : Entry → String
  | .errorOutput text => text
  | _ => ""

/-- What the console's error stream shows. -/
def errors (j : Journal) : String := String.join (j.map Entry.errorText)

end Journal

end VideoExport
