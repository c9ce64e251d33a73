import VideoExport.Host.Basic
import VideoExport.Json.Reader
import VideoExport.Text.Numeral

/-!
# The length of a video

A probe asks a program for the length of a video. Whatever goes wrong once the file is known to
exist leaves the length unknown, which is written as zero.
-/

set_option autoImplicit false

namespace VideoExport

/-- How videos are probed: the program, if it is not the one on the search path, and the time that
it may take. -/
structure MediaProbe where
  program : Option String := none
  limit : Option Number := some (.decimal 300 1)

namespace MediaProbe

/-- The source of the probe's records in the log. -/
def logSource : String := "MediaIO"

/-- An entry of a probe's answer. -/
def entry (v : Value) (key : String) : Except Failure Value :=
  match v with
  | .map entries => match entries.lookup key with
    | some w => .ok w
    | none => .error (.probe (.missing key))
  | w => .error (.probe (.notMap w))

/-- The number that an entry holds. -/
def seconds : Value → Except Failure Binary64
  | .number n => n.toReal.mapError .numeric
  | .bool b => .ok (if b then .ofInt 1 else .zero false)
  | .text s => match Text.readReal? s with
    | some x => .ok x
    | none => .error (.probe (.notNumeral s))
  | v => .error (.probe (.notNumber v))

/-- The length that a probe's answer tells. -/
def parse (answer : String) : Except Failure Binary64 := do
  let v ← (Json.read answer).mapError .document
  seconds (← entry (← entry v "format") "duration")

/-- The command that asks for the length of a file. -/
def command (binary path : String) : List String :=
  [binary, "-v", "error", "-show_entries", "format=duration", "-of", "json", path]

/-- Asks for the length of a file. -/
def ask (p : MediaProbe) (path : String) : Action Host Binary64 := do
  let binary ← Action.read fun h : Host => h.resolveProgram p.program "ffprobe"
  Action.ofExcept (parse (← Host.runProbe (command binary path) p.limit))

/-- Whether a length can be one. -/
def isLength (x : Binary64) : Bool := x.isFinite && (Number.int 0).lt (.real x)

/-- The length of a video in seconds; zero if it is unknown or there is no such file. -/
def duration (p : MediaProbe) (path : String) : Action Host Binary64 := do
  if path.isEmpty || !(← Host.pathExists path) then return .zero false
  match ← (p.ask path).attempt with
  | .error f =>
    Host.log .warning logSource s!"Erro ao obter duração de {path}: {f.message}"
    return .zero false
  | .ok x =>
    if isLength x then
      Host.log .debug logSource s!"Duração de {path}: {x.fixed 2}s"
      return x
    else return .zero false

end MediaProbe

end VideoExport
