import VideoExport.Config.Basic
import VideoExport.Failure
import VideoExport.Text.Lowercase
import VideoExport.Text.Numeral
import VideoExport.Text.Search

/-!
# Fields of the configuration

The fields under their names, and how a value is read for each. A value of another kind is converted
where its meaning is plain: a numeral for a number, a whole real for an integer, a word for a
switch.
-/

set_option autoImplicit false

namespace VideoExport

/-- A field of the configuration. -/
inductive ConfigField where
  | encoder
  | prober
  | loadLimit
  | renderLimit
  | probeLimit
  | minOutput
  | maxInput
  | logBuffer
  | logTail
  | fontPath
  | fontUrl
  | fontLimit
  | outputDirectory
  | workDirectory
  | renewEngine
  deriving DecidableEq, Repr

namespace ConfigField

/-- The fields in order. -/
def all : List ConfigField := [
  .encoder, .prober, .loadLimit, .renderLimit, .probeLimit, .minOutput, .maxInput, .logBuffer,
  .logTail, .fontPath, .fontUrl, .fontLimit, .outputDirectory, .workDirectory, .renewEngine]

def name : ConfigField → String
  | .encoder => "ffmpeg_path"
  | .prober => "ffprobe_path"
  | .loadLimit => "engine_load_timeout"
  | .renderLimit => "render_timeout"
  | .probeLimit => "probe_timeout"
  | .minOutput => "min_output_bytes"
  | .maxInput => "max_input_bytes"
  | .logBuffer => "log_buffer_size"
  | .logTail => "log_tail_lines"
  | .fontPath => "default_font_path"
  | .fontUrl => "default_font_url"
  | .fontLimit => "font_download_timeout"
  | .outputDirectory => "output_dir"
  | .workDirectory => "work_dir"
  | .renewEngine => "recreate_engine_after_timeout"

/-- The field of a name. -/
def ofName? (s : String) : Option ConfigField := all.find? fun f => f.name = s

end ConfigField

/-! ## Reading values -/

namespace Value

/-- A value as it is read: octets stand for their text. -/
def readable (v : Value) (unreadable : Mismatch) : Except Mismatch Value :=
  match v with
  | .octets bytes => match Text.Utf8.decode bytes with
    | .ok s => .ok (.text s)
    | .error _ => .error unreadable
  | v => .ok v

def asText (v : Value) : Except Mismatch String := do
  match ← v.readable .unreadableText with
  | .text s => return s
  | _ => throw .notText

def asTextOrNull (v : Value) : Except Mismatch (Option String) := do
  match ← v.readable .unreadableText with
  | .null => return none
  | .text s => return some s
  | _ => throw .notText

/-- Drops underscores, unless one is first or last or follows another. -/
def dropGroupMarks (s : List Char) : Option (List Char) :=
  if s.head? = some '_' || s.getLast? = some '_' || Text.occursIn ['_', '_'] s then none
  else some (s.filter (· ≠ '_'))

/-- What follows a numeral's plus sign; no other sign may follow it. -/
def afterPlus : List Char → Option (List Char)
  | '+' :: '-' :: _ => none
  | '+' :: rest => some rest
  | s => some s

/-- Whether a character starts the part of an integer that counts. -/
def startsInteger (c : Char) : Bool := c = '-' || ('1' ≤ c && c ≤ '9')

/-- What counts of a numeral after a zero: it starts behind all zeros and underscores, or with the
last of them if nothing or a decimal point follows. -/
def afterZeros (last : Char) : List Char → Option (List Char)
  | [] => some [last]
  | c :: rest =>
    if c = '0' || c = '_' then afterZeros c rest
    else if c = '.' then some (last :: c :: rest)
    else if startsInteger c then some (c :: rest)
    else none

/-- What counts of a numeral: it is without leading zeros. -/
def dropZeros : List Char → Option (List Char)
  | [] => none
  | c :: rest =>
    if c = '0' then afterZeros c rest else if startsInteger c then some (c :: rest) else none

/-- Drops a decimal point that zeros follow, and nothing else. -/
def dropZeroFraction (s : List Char) : List Char :=
  let fraction := (s.dropWhile (· ≠ '.')).drop 1
  if !fraction.isEmpty && fraction.all (· = '0') then s.takeWhile (· ≠ '.') else s

/-- The integer of a numeral, which may have a fraction of zeros. -/
def integerOfText (s : String) : Except Mismatch Int :=
  let numeral := do
    dropGroupMarks (dropZeroFraction (← dropZeros (← afterPlus (Text.trimNumeral s.toList))))
  match numeral with
  | none => .error .unreadableInteger
  | some numeral =>
    let negative := numeral.head? = some '-'
    let digits := if negative then numeral.drop 1 else numeral
    if digits.isEmpty || !digits.all Char.isDigit then .error .unreadableInteger
    else if digitLimit < (digits.dropWhile (· = '0')).length then .error .oversizedInteger
    else
      let value : Int := Text.decimalValue digits
      .ok (if negative then -value else value)

/-- Reals beyond this size are not read as integers. -/
def integerRange : Rat := Binary64.twoPow 63

def asInteger (v : Value) : Except Mismatch Int := do
  match ← v.readable .unreadableInteger with
  | .bool b => return if b then 1 else 0
  | .number (.int n) => return n
  | .number (.real (.finite x)) =>
    if x.value.den ≠ 1 then throw .fractionalInteger
    else if -integerRange < x.value && x.value < integerRange then return x.value.num
    else throw .oversizedInteger
  | .number (.real _) => throw .infiniteInteger
  | .text s => integerOfText s
  | _ => throw .notInteger

/-- The real of a numeral. -/
def realOfText? (s : String) : Option Binary64 :=
  Text.plainReal? (Text.trimNumeral s.toList)
    <|> (dropGroupMarks s.toList).bind Text.plainReal?

def asReal (v : Value) : Except Mismatch Number := do
  match ← v.readable .unreadableReal with
  | .bool b => return .real (if b then .ofInt 1 else .zero false)
  | .number n => match n.toReal with
    | .ok x => return .real x
    | .error _ => throw .notReal
  | .text s => match realOfText? s with
    | some x => return .real x
    | none => throw .unreadableReal
  | _ => throw .notReal

/-- The number of a switch, if it can be one: an integer within the range of integers. -/
def switchNumber? : Number → Option Int
  | .int n =>
    if -integerRange ≤ (n : Rat) && (n : Rat) < integerRange then some n else none
  | .real x => do
    let q ← x.value?
    if q.den = 1 && -integerRange < q && q < integerRange then some q.num else none

def asSwitch (v : Value) : Except Mismatch Bool := do
  match ← v.readable .unreadableSwitch with
  | .bool b => return b
  | .number n =>
    match switchNumber? n with
    | none => throw .notSwitch
    | some n =>
      if n = 0 then return false
      else if n = 1 then return true
      else throw .unreadableSwitch
  | .text s =>
    let word := String.ofList (s.toList.map Char.toLower)
    if ["0", "off", "f", "false", "n", "no"].contains word then return false
    else if ["1", "on", "t", "true", "y", "yes"].contains word then return true
    else throw .unreadableSwitch
  | _ => throw .notSwitch

end Value

namespace Config

/-- The value of a text that may be absent. -/
def textOrNull : Option String → Value
  | some s => .text s
  | none => .null

/-- The value of a field. -/
def value (c : Config) : ConfigField → Value
  | .encoder => textOrNull c.encoder
  | .prober => textOrNull c.prober
  | .loadLimit => .number c.loadLimit
  | .renderLimit => .number c.renderLimit
  | .probeLimit => .number c.probeLimit
  | .minOutput => .number c.minOutput
  | .maxInput => .number (.int c.maxInput)
  | .logBuffer => match c.logBuffer with
    | some n => .number (.int n)
    | none => .null
  | .logTail => .number (.int c.logTail)
  | .fontPath => textOrNull c.fontPath
  | .fontUrl => .text c.fontUrl
  | .fontLimit => .number c.fontLimit
  | .outputDirectory => .text c.outputDirectory
  | .workDirectory => textOrNull c.workDirectory
  | .renewEngine => .bool c.renewEngine

/-- The configuration with a field set from a value. -/
def set (c : Config) (f : ConfigField) (v : Value) : Except Mismatch Config := do
  match f with
  | .encoder => return { c with encoder := ← v.asTextOrNull }
  | .prober => return { c with prober := ← v.asTextOrNull }
  | .loadLimit => return { c with loadLimit := ← v.asReal }
  | .renderLimit => return { c with renderLimit := ← v.asReal }
  | .probeLimit => return { c with probeLimit := ← v.asReal }
  | .minOutput => return { c with minOutput := .int (← v.asInteger) }
  | .maxInput => return { c with maxInput := ← v.asInteger }
  | .logBuffer => return { c with logBuffer := some (← v.asInteger) }
  | .logTail => return { c with logTail := ← v.asInteger }
  | .fontPath => return { c with fontPath := ← v.asTextOrNull }
  | .fontUrl => return { c with fontUrl := ← v.asText }
  | .fontLimit => return { c with fontLimit := ← v.asReal }
  | .outputDirectory => return { c with outputDirectory := ← v.asText }
  | .workDirectory => return { c with workDirectory := ← v.asTextOrNull }
  | .renewEngine => return { c with renewEngine := ← v.asSwitch }

/-- The configuration with a field set to a value as it is. A value of a kind that the field cannot
hold changes nothing, but a limit that is no number is no limit, and any value is a switch. -/
def assign (c : Config) (f : ConfigField) (v : Value) : Config :=
  let number := v.asNumber?
  match f with
  | .loadLimit => { c with loadLimit := number.getD 0 }
  | .renderLimit => { c with renderLimit := number.getD 0 }
  | .minOutput => { c with minOutput := number.getD c.minOutput }
  | .logBuffer => match v with
    | .null => { c with logBuffer := none }
    | v => (c.set f v).toOption.getD c
  | .renewEngine => { c with renewEngine := v.isTruthy }
  | f => (c.set f v).toOption.getD c

/-- Sets fields in order; the configuration, and the fields that do not fit. -/
def setAll (entries : List (String × Value)) :
    Config → List ConfigField → Config × List ConfigFault
  | c, [] => (c, [])
  | c, f :: rest =>
    match entries.lookup f.name with
    | none => setAll entries c rest
    | some v =>
      match c.set f v with
      | .ok c' => setAll entries c' rest
      | .error mismatch =>
        let (c', faults) := setAll entries c rest
        (c', ⟨f.name, mismatch⟩ :: faults)

/-- The faults of entries that name no field. -/
def unknownFields (entries : List (String × Value)) : List ConfigFault :=
  entries.filterMap fun (k, _) =>
    match ConfigField.ofName? k with
    | some _ => none
    | none => some ⟨k, .unknownField⟩

/-- The configuration that entries make; every fault is told. -/
def ofEntries (entries : List (String × Value)) : Except Failure Config :=
  let (c, faults) := setAll entries {} ConfigField.all
  match faults ++ unknownFields entries with
  | [] => .ok c
  | faults => .error (.config faults)

end Config

end VideoExport
