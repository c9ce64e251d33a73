import VideoExport.Json.Reader
import VideoExport.Json.Writer
import VideoExport.Text.Encoding
import VideoExport.Text.Quoted

/-!
# Failures

Everything that can go wrong in an export, as a cause. `Failure.message` is the one place where
causes get their wording. `Failure.exportFailed` is what a failed job reports: the cause and the end
of the engine's log.
-/

set_option autoImplicit false

namespace VideoExport

/-- Why the file system refused an operation. -/
inductive FileFault where
  | notFound
  | exists
  | notDirectory
  | isDirectory
  | nameTooLong
  | notEmpty
  deriving DecidableEq, Repr

namespace FileFault

/-- The system's number of a fault. -/
def number : FileFault → Nat
  | .notFound => 2
  | .exists => 17
  | .notDirectory => 20
  | .isDirectory => 21
  | .nameTooLong => 36
  | .notEmpty => 39

/-- The system's words for a fault. -/
def words : FileFault → String
  | .notFound => "No such file or directory"
  | .exists => "File exists"
  | .notDirectory => "Not a directory"
  | .isDirectory => "Is a directory"
  | .nameTooLong => "File name too long"
  | .notEmpty => "Directory not empty"

end FileFault

/-- Kinds of a failure that a collaborator raises with a text of its own. -/
inductive RaisedKind where
  | runtime
  | value
  | system
  | timeout
  | notFound
  | key
  | exportError
  deriving DecidableEq, Repr

/-- The operations with a time limit. -/
inductive TimedOperation where
  | load
  | render
  /-- Another one, by its name. -/
  | other (label : String)
  deriving DecidableEq, Repr

def TimedOperation.label : TimedOperation → String
  | .load => "Carregamento do FFmpeg"
  | .render => "Renderização do FFmpeg"
  | .other label => label

/-- How a program that was run to its end failed. -/
inductive ProgramFault where
  /-- It ended with a code other than zero; negative if a signal ended it. -/
  | code (returned : Int)
  /-- It took longer than its limit. -/
  | overtime (limit : Option Number)
  deriving DecidableEq

/-- Where a probe's answer has another shape than expected. -/
inductive ProbeFault where
  /-- An entry is missing. -/
  | missing (key : String)
  /-- Something that is no map was asked for an entry. -/
  | notMap (v : Value)
  /-- A text that is no number. -/
  | notNumeral (s : String)
  /-- Something that is neither a number nor a text. -/
  | notNumber (v : Value)

/-- What was asked of values whose kinds do not allow it; kinds are given by their words. -/
inductive Misuse where
  /-- A comparison of values that have no order. -/
  | comparison (sign left right : String)
  | arithmetic (sign left right : String)
  /-- A part that values of the kind do not have. -/
  | part (kind name : String)
  /-- Text where octets alone can stand. -/
  | textForOctets
  /-- A walk through something that has no items. -/
  | items (kind : String)
  /-- An option of an unknown name. -/
  | option (operation name : String)
  /-- A search in something that contains nothing. -/
  | search (kind : String)
  /-- Something else where a real number is asked for. -/
  | real (kind : String)
  /-- Something else where an integer is asked for. -/
  | integer (kind : String)
  /-- A path made of something that is no text. -/
  | path (kind : String)
  /-- A text repeated by something that is no integer. -/
  | repetition (kind : String)
  deriving DecidableEq, Repr

/-- The places other than its file from which a configuration takes values. -/
inductive ConfigSource where
  | environment
  | environmentFile
  | secrets
  deriving DecidableEq, Repr

/-- Which settings a change may not name: the names of the operation's own arguments. -/
structure ReservedName where
  operation : String
  name : String
  deriving DecidableEq, Repr

/-- Why a value does not fit a field of a configuration. -/
inductive Mismatch where
  | notText
  | unreadableText
  | notInteger
  | unreadableInteger
  | fractionalInteger
  | infiniteInteger
  | oversizedInteger
  | notReal
  | unreadableReal
  | notSwitch
  | unreadableSwitch
  | unknownField
  deriving DecidableEq, Repr

/-- The word for a mismatch. -/
def Mismatch.code : Mismatch → String
  | .notText => "string_type"
  | .unreadableText => "string_unicode"
  | .notInteger => "int_type"
  | .unreadableInteger => "int_parsing"
  | .fractionalInteger => "int_from_float"
  | .infiniteInteger => "finite_number"
  | .oversizedInteger => "int_parsing_size"
  | .notReal => "float_type"
  | .unreadableReal => "float_parsing"
  | .notSwitch => "bool_type"
  | .unreadableSwitch => "bool_parsing"
  | .unknownField => "extra_forbidden"

/-- A field of a configuration that does not fit. -/
structure ConfigFault where
  field : String
  mismatch : Mismatch
  deriving DecidableEq, Repr

/-- Why something failed. -/
inductive Failure where
  /-- A resource could not be put into working storage. -/
  | staging (name reason : String)
  /-- An operation of the engine took too long; the limit is shown in whole seconds. -/
  | timedOut (operation : TimedOperation) (limit : Number) (seconds : String)
  /-- The engine's command failed. -/
  | execution (code : Option Int) (stderr : String)
  /-- The output is smaller than allowed. -/
  | emptyOutput (size : Int)
  /-- A job failed: the cause and the end of the engine's log. -/
  | exportFailed (cause : Failure) (logTail : List String)
  /-- The file system refused an operation on a path. -/
  | file (fault : FileFault) (path : String)
  /-- A path holds a character that no path may hold. -/
  | nullCharacter
  /-- A file is no text in its encoding. -/
  | notText (e : Text.DecodeError)
  /-- There is no encoding of that name. -/
  | unknownEncoding (name : String)
  /-- A program does not exist. -/
  | programMissing (binary : String)
  /-- A program failed. -/
  | program (command : List String) (fault : ProgramFault)
  /-- A download failed. -/
  | offline (reason : String)
  /-- A server answered with an error status. -/
  | httpStatus (status : Int) (reason url : String)
  /-- No font is attached and none is configured. -/
  | noDefaultFont
  /-- Working storage has no such entry. -/
  | entryMissing (name : String)
  /-- The engine is not loaded. -/
  | notLoaded
  /-- A name that is no name of an entry in working storage. -/
  | invalidName (name : String)
  /-- An option at the end of a command lacks its value. -/
  | outOfRange
  /-- Another number of values than the two that were asked for. -/
  | notPair (count : Nat)
  /-- A length below zero was asked for. -/
  | negativeLength
  /-- A length was asked for that no list can have. -/
  | oversizedLength
  | numeric (e : NumericError)
  | document (e : Json.ReadError)
  | unwritable (e : Json.WriteError)
  | probe (fault : ProbeFault)
  | reserved (r : ReservedName)
  /-- A configuration that is no map. -/
  | configShape (v : Value)
  /-- A configuration with faulty fields. -/
  | config (faults : List ConfigFault)
  /-- A source of the configuration could not be asked for a field. -/
  | source (s : ConfigSource) (field : String)
  /-- The directory of the secrets is a file. -/
  | secretsFile
  | misuse (m : Misuse)
  /-- A time outside the calendar. -/
  | dateOutOfRange
  /-- A value that names none of a set of choices. -/
  | notChoice (given : Value) (set : String)
  /-- A failure that a collaborator raised. -/
  | raised (kind : RaisedKind) (text : String)

namespace Json

/-- Words for a fault in a document. -/
def Fault.words : Fault → String
  | .value => "Expecting value"
  | .propertyName => "Expecting property name enclosed in double quotes"
  | .colon => "Expecting ':' delimiter"
  | .comma => "Expecting ',' delimiter"
  | .controlCharacter => "Invalid control character at"
  | .unterminated => "Unterminated string starting at"
  | .escape => "Invalid \\escape"
  | .unicodeEscape => "Invalid \\uXXXX escape"
  | .extraData => "Extra data"
  | .byteOrderMark => "Unexpected UTF-8 BOM (decode using utf-8-sig)"

def ReadError.message : ReadError → String
  | .malformed f line column position =>
    s!"{f.words}: line {line} column {column} (char {position})"
  | .integerTooLong digits =>
    s!"Exceeds the limit ({digitLimit} digits) for integer string conversion: value has {digits} digits; use sys.set_int_max_str_digits() to increase the limit"
  | .tooDeep atMap =>
    let what := if atMap then "object" else "array"
    s!"maximum recursion depth exceeded while decoding a JSON {what} from a unicode string"

end Json

def NumericError.message : NumericError → String
  | .tooLargeForReal => "int too large to convert to float"
  | .quotientTooLarge => "integer division result too large for a float"
  | .tooManyDigits =>
    s!"Exceeds the limit ({digitLimit} digits) for integer string conversion; use sys.set_int_max_str_digits() to increase the limit"
  | .divisionByZero => "float division by zero"
  | .nanToInteger => "cannot convert float NaN to integer"
  | .infinityToInteger => "cannot convert float infinity to integer"
  | .domain => "math domain error"

def Json.WriteError.message : Json.WriteError → String
  | .numeric e => e.message
  | .notFinite none => "Out of range float values are not JSON compliant"
  | .notFinite (some shown) => s!"Out of range float values are not JSON compliant: {shown}"
  | .octets => "Object of type bytes is not JSON serializable"

/-- The word for the kind of a value. -/
def Value.kindName : Value → String
  | .null => "NoneType"
  | .bool _ => "bool"
  | .number (.int _) => "int"
  | .number (.real _) => "float"
  | .text _ => "str"
  | .octets _ => "bytes"
  | .list _ => "list"
  | .map _ => "dict"

def ProbeFault.message : ProbeFault → String
  | .missing key => Text.quoted key
  | .notMap (.list _) => "list indices must be integers or slices, not str"
  | .notMap (.text _) => "string indices must be integers, not 'str'"
  | .notMap v => s!"'{v.kindName}' object is not subscriptable"
  | .notNumeral s => s!"could not convert string to float: {Text.quoted s}"
  | .notNumber v => s!"float() argument must be a string or a real number, not '{v.kindName}'"

/-- Names of the signals that end a program. -/
def signalName? (n : Nat) : Option String :=
  [(1, "SIGHUP"), (2, "SIGINT"), (3, "SIGQUIT"), (4, "SIGILL"), (5, "SIGTRAP"), (6, "SIGABRT"),
    (7, "SIGBUS"), (8, "SIGFPE"), (9, "SIGKILL"), (10, "SIGUSR1"), (11, "SIGSEGV"),
    (12, "SIGUSR2"), (13, "SIGPIPE"), (14, "SIGALRM"), (15, "SIGTERM"), (16, "SIGSTKFLT"),
    (17, "SIGCHLD"), (18, "SIGCONT"), (19, "SIGSTOP"), (20, "SIGTSTP"), (21, "SIGTTIN"),
    (22, "SIGTTOU"), (23, "SIGURG"), (24, "SIGXCPU"), (25, "SIGXFSZ"), (26, "SIGVTALRM"),
    (27, "SIGPROF"), (28, "SIGWINCH"), (29, "SIGIO"), (30, "SIGPWR"), (31, "SIGSYS"),
    (34, "SIGRTMIN"), (64, "SIGRTMAX")].lookup n

def ProgramFault.message (command : List String) : ProgramFault → String
  | .code returned =>
    if returned < 0 then
      match signalName? returned.natAbs with
      | some name => s!"Command '{Text.quotedList command}' died with <Signals.{name}: {returned.natAbs}>."
      | none => s!"Command '{Text.quotedList command}' died with unknown signal {returned.natAbs}."
    else s!"Command '{Text.quotedList command}' returned non-zero exit status {returned}."
  | .overtime limit =>
    let shown := match limit with
      | none => "None"
      | some n => (n.text.toOption).getD ""
    s!"Command '{Text.quotedList command}' timed out after {shown} seconds"

/-- What is said of an octet that cannot be read. -/
def octetMessage (encoding : String) (octet : UInt8) (position : Nat) (reason : String) : String :=
  let shown := String.ofList (Text.hexDigits 2 octet.toNat)
  s!"'{encoding}' codec can't decode byte 0x{shown} in position {position}: {reason}"

def utf8Message (e : Text.Utf8.Error) : String :=
  let reason := match e.fault with
    | .startByte => "invalid start byte"
    | .continuationByte => "invalid continuation byte"
    | .endOfData => "unexpected end of data"
  if e.length = 1 then octetMessage "utf-8" e.first e.position reason
  else
    s!"'utf-8' codec can't decode bytes in position {e.position}-{e.position + e.length - 1}: {reason}"

def decodeMessage : Text.DecodeError → String
  | .utf8 e => utf8Message e
  | .beyondAscii position octet => octetMessage "ascii" octet position "ordinal not in range(128)"
  | .unassigned position octet =>
    octetMessage "charmap" octet position "character maps to <undefined>"

def Misuse.message : Misuse → String
  | .comparison sign left right =>
    s!"'{sign}' not supported between instances of '{left}' and '{right}'"
  | .arithmetic sign left right =>
    s!"unsupported operand type(s) for {sign}: '{left}' and '{right}'"
  | .part kind name => s!"'{kind}' object has no attribute '{name}'"
  | .textForOctets => "a bytes-like object is required, not 'str'"
  | .items kind => s!"'{kind}' object is not iterable"
  | .repetition kind => s!"can't multiply sequence by non-int of type '{kind}'"
  | .option operation name => s!"{operation}() got an unexpected keyword argument '{name}'"
  | .search kind => s!"argument of type '{kind}' is not iterable"
  | .real kind => s!"must be real number, not {kind}"
  | .integer kind => s!"'{kind}' object cannot be interpreted as an integer"
  | .path kind =>
    if kind = "bytes" then
      "argument should be a str object or an os.PathLike object returning str, not <class 'bytes'>"
    else s!"expected str, bytes or os.PathLike object, not {kind}"

/-- The word for a source of the configuration. -/
def ConfigSource.word : ConfigSource → String
  | .environment => "EnvSettingsSource"
  | .environmentFile => "DotEnvSettingsSource"
  | .secrets => "SecretsSettingsSource"

namespace Failure

/-- The failure of an operation whose time limit has passed. -/
def expired (operation : TimedOperation) (limit : Number) : Failure :=
  match limit.roundToInt >>= Number.intText with
  | .ok seconds => .timedOut operation limit seconds
  | .error e => .numeric e

/-- What a failure says. -/
def message : Failure → String
  | .staging name reason => s!"Falha ao preparar {name}: {reason}"
  | .timedOut operation _ seconds => s!"{operation.label} excedeu o timeout de {seconds}s"
  | .execution code _ =>
    let shown := match code with
      | none => "None"
      | some n => toString n
    s!"FFmpeg falhou com código {shown}"
  | .emptyOutput size => s!"Exportação produziu uma saída vazia ({size} bytes)"
  | .exportFailed cause _ => s!"Exportação falhou: {cause.message}"
  | .file fault path => s!"[Errno {fault.number}] {fault.words}: {Text.quoted path}"
  | .nullCharacter => "embedded null byte"
  | .notText e => decodeMessage e
  | .unknownEncoding name => s!"unknown encoding: {name}"
  | .programMissing binary =>
    s!"[Errno {FileFault.notFound.number}] {FileFault.notFound.words}: {Text.quoted binary}"
  | .program command fault => fault.message command
  | .offline reason => reason
  | .httpStatus status reason url =>
    let side := if status < 500 then "Client" else "Server"
    s!"{status} {side} Error: {reason} for url: {url}"
  | .noDefaultFont => "Nenhuma fonte padrão configurada"
  | .entryMissing name => name
  | .notLoaded => "Engine não carregado"
  | .invalidName name => s!"Nome inválido no armazenamento de trabalho: {Text.quoted name}"
  | .outOfRange => "list index out of range"
  | .notPair count =>
    if count < 2 then s!"not enough values to unpack (expected 2, got {count})"
    else "too many values to unpack (expected 2)"
  | .negativeLength => "maxlen must be non-negative"
  | .oversizedLength => "Python int too large to convert to C ssize_t"
  | .numeric e => e.message
  | .document e => e.message
  | .unwritable e => e.message
  | .probe fault => fault.message
  | .reserved r => s!"{r.operation}() got multiple values for argument '{r.name}'"
  | .configShape v =>
    s!"vtransform.infra.settings.AppSettings() argument after ** must be a mapping, not {v.kindName}"
  | .config faults => "; ".intercalate (faults.map fun f => s!"{f.field}: {f.mismatch.code}")
  | .source s field => s!"error getting value for field \"{field}\" from source \"{s.word}\""
  | .secretsFile => "secrets_dir must reference a directory, not a file"
  | .misuse m => m.message
  | .dateOutOfRange => "date value out of range"
  | .notChoice given set => match given.inner with
    | .ok shown => s!"{shown} is not a valid {set}"
    | .error e => e.message
  | .raised .key text => Text.quoted text
  | .raised _ text => text

/-- What is told of a job that failed: the cause, and the last line of the engine's log. -/
def summary (cause : Failure) (logTail : List String) : String :=
  let told := if cause.message.isEmpty then "Falha no processamento" else cause.message
  match logTail.getLast? with
  | some line => s!"{told}: {line}"
  | none => told

/-- Whether the failure says that something does not exist. -/
def isNotFound : Failure → Bool
  | .file .notFound _ => true
  | .programMissing _ => true
  | .noDefaultFont => true
  | .entryMissing _ => true
  | .raised .notFound _ => true
  | _ => false

/-- Whether the failure came from the operating system. -/
def isSystem : Failure → Bool
  | .file _ _ => true
  | .programMissing _ => true
  | .noDefaultFont => true
  | .entryMissing _ => true
  | .offline _ => true
  | .httpStatus _ _ _ => true
  | .raised .system _ => true
  | .raised .timeout _ => true
  | .raised .notFound _ => true
  | _ => false

/-- Whether the failure is a time limit of an engine operation. -/
def isTimeLimit : Failure → Bool
  | .timedOut _ _ _ => true
  | _ => false

end Failure

end VideoExport
