import VideoExport.Json.Value
import VideoExport.Text.Utf8

/-!
# Reading JSON

A reader for JSON documents that also knows `NaN`, `Infinity` and `-Infinity`. A fault carries the
text that remained where it was found, from which `Json.read` computes its position. Integers have
at most `digitLimit` digits, and lists and maps nest at most `nestingLimit` deep.
-/

set_option autoImplicit false

namespace VideoExport.Json

/-- What is wrong with a document. -/
inductive Fault where
  | value
  | propertyName
  | colon
  | comma
  | controlCharacter
  | unterminated
  | escape
  | unicodeEscape
  | extraData
  | byteOrderMark
  deriving DecidableEq, Repr

/-- Why a text is no document that can be read. -/
inductive ReadError where
  /-- A fault and the place where it was found. -/
  | malformed (fault : Fault) (line column position : Nat)
  /-- An integer with that many digits. -/
  | integerTooLong (digits : Nat)
  /-- Nesting beyond the limit; met at a map, or else at a list. -/
  | tooDeep (atMap : Bool)
  deriving DecidableEq, Repr

/-- A reader's own error: the same with the text that remained in place of the position. -/
inductive Stop where
  | fault (fault : Fault) (rest : List Char)
  | integerTooLong (digits : Nat)
  | tooDeep (atMap : Bool)

/-- How deep lists and maps may nest. -/
def nestingLimit : Nat := 980

/-- White space between tokens. -/
def isSpace (c : Char) : Bool := c = ' ' || c = '\t' || c = '\n' || c = '\r'

def skipSpace (s : List Char) : List Char := s.dropWhile isSpace

/-! ## Texts -/

/-- The value of a hexadecimal digit. -/
def hexValue? (c : Char) : Option Nat :=
  if '0' ≤ c && c ≤ '9' then some (c.toNat - '0'.toNat)
  else if 'a' ≤ c && c ≤ 'f' then some (c.toNat - 'a'.toNat + 10)
  else if 'A' ≤ c && c ≤ 'F' then some (c.toNat - 'A'.toNat + 10)
  else none

/-- The value of four hexadecimal digits that are not the end of the text, and what follows. -/
def hexUnit? : List Char → Option (Nat × List Char)
  | a :: b :: c :: d :: next :: rest => do
    let value := (((← hexValue? a) * 16 + (← hexValue? b)) * 16 + (← hexValue? c)) * 16
      + (← hexValue? d)
    return (value, next :: rest)
  | _ => none

/-- The character that a one-letter escape stands for. -/
def escaped? (c : Char) : Option Char :=
  match c with
  | '"' => some '"'
  | '\\' => some '\\'
  | '/' => some '/'
  | 'b' => some (Char.ofNat 8)
  | 'f' => some (Char.ofNat 12)
  | 'n' => some '\n'
  | 'r' => some '\r'
  | 't' => some '\t'
  | _ => none

def isHighSurrogate (u : Nat) : Bool := 0xD800 ≤ u && u ≤ 0xDBFF

def isLowSurrogate (u : Nat) : Bool := 0xDC00 ≤ u && u ≤ 0xDFFF

/-- The character of an escaped unit `u`, joined with a second escape if both are surrogates. -/
def joinUnits (u : Nat) (rest : List Char) : Except Stop (Char × List Char) :=
  if isHighSurrogate u then
    match rest with
    | '\\' :: 'u' :: second =>
      if second.length < 5 then .ok (Text.charOfCode u, rest)
      else match hexUnit? second with
        | none => .error (.fault .unicodeEscape ('u' :: second))
        | some (v, rest') =>
          if isLowSurrogate v then
            .ok (Char.ofNat (0x10000 + (u - 0xD800) * 0x400 + (v - 0xDC00)), rest')
          else .ok (Text.charOfCode u, rest)
    | _ => .ok (Text.charOfCode u, rest)
  else .ok (Text.charOfCode u, rest)

/-- The characters of a text up to its closing quote, and what follows. `opening` is the text from
the opening quote on; the fuel is the number of characters. -/
def readText (opening : List Char) : Nat → List Char → Except Stop (List Char × List Char)
  | 0, _ => .error (.fault .unterminated opening)
  | _, [] => .error (.fault .unterminated opening)
  | fuel + 1, c :: rest =>
    if c = '"' then .ok ([], rest)
    else if c = '\\' then
      match rest with
      | [] => .error (.fault .unterminated opening)
      | 'u' :: digits =>
        match hexUnit? digits with
        | none => .error (.fault .unicodeEscape rest)
        | some (u, rest') => do
          let (d, rest'') ← joinUnits u rest'
          let (tail, after) ← readText opening fuel rest''
          return (d :: tail, after)
      | e :: rest' =>
        match escaped? e with
        | none => .error (.fault .escape (c :: rest))
        | some d => do
          let (tail, after) ← readText opening fuel rest'
          return (d :: tail, after)
    else if c.toNat < 0x20 then .error (.fault .controlCharacter (c :: rest))
    else do
      let (tail, after) ← readText opening fuel rest
      return (c :: tail, after)

/-! ## Numbers -/

def isDigit (c : Char) : Bool := '0' ≤ c && c ≤ '9'

/-- The value of decimal digits. -/
def digitsValue (s : List Char) : Nat := s.foldl (fun acc c => acc * 10 + (c.toNat - '0'.toNat)) 0

/-- The digits before a decimal point. A zero that comes first stands alone. -/
def wholeDigits (s : List Char) : List Char :=
  match s with
  | '0' :: _ => ['0']
  | _ => s.takeWhile isDigit

/-- The digits after a decimal point, if there are any. -/
def fractionDigits (s : List Char) : List Char × List Char :=
  match s with
  | '.' :: rest =>
    let digits := rest.takeWhile isDigit
    if digits.isEmpty then ([], s) else (digits, rest.dropWhile isDigit)
  | _ => ([], s)

/-- The exponent, if there is one. -/
def exponentPart (s : List Char) : Option Int × List Char :=
  let read (negative : Bool) (digits : List Char) : Option Int × List Char :=
    let d := digits.takeWhile isDigit
    if d.isEmpty then (none, s)
    else
      let value : Int := digitsValue d
      (some (if negative then -value else value), digits.dropWhile isDigit)
  match s with
  | e :: rest =>
    if e = 'e' || e = 'E' then
      match rest with
      | '+' :: digits => read false digits
      | '-' :: digits => read true digits
      | digits => read false digits
    else (none, s)
  | [] => (none, s)

/-- A number; `s` is the text at its first digit and `start` the text at its sign. -/
def readNumber (start : List Char) (negative : Bool) (s : List Char) :
    Except Stop (Number × List Char) :=
  let whole := wholeDigits s
  if whole.isEmpty then .error (.fault .value start)
  else
    let (fraction, rest) := fractionDigits (s.drop whole.length)
    let (exponent?, rest') := exponentPart rest
    if fraction.isEmpty && exponent?.isNone then
      if digitLimit < whole.length then .error (.integerTooLong whole.length)
      else
        let value : Int := digitsValue whole
        .ok (.int (if negative then -value else value), rest')
    else
      let exponent := exponent?.getD 0 - (fraction.length : Int)
      .ok (.real (.ofDecimal negative (digitsValue (whole ++ fraction)) exponent), rest')

/-! ## Values -/

/-- The text after a word, if it starts with it. -/
def afterWord? (word : List Char) (s : List Char) : Option (List Char) :=
  if word.isPrefixOf s then some (s.drop word.length) else none

/-- Values that are a single word. -/
def word? (s : List Char) : Option (Value × List Char) :=
  let entry (word : String) (v : Value) : Option (Value × List Char) :=
    (afterWord? word.toList s).map (v, ·)
  entry "null" .null <|> entry "true" (.bool true) <|> entry "false" (.bool false)
    <|> entry "NaN" (.number (.real .nan))
    <|> entry "Infinity" (.number (.real (.infinite false)))
    <|> entry "-Infinity" (.number (.real (.infinite true)))

mutual

/-- A value, with `depth` levels of nesting left. Each character takes at most two units of fuel. -/
def readValue (depth : Nat) : Nat → List Char → Except Stop (Value × List Char)
  | 0, s => .error (.fault .value s)
  | _, [] => .error (.fault .value [])
  | fuel + 1, c :: rest =>
    if c = '"' then do
      let (chars, after) ← readText (c :: rest) rest.length rest
      return (.text (String.ofList chars), after)
    else if c = '\x7b' then
      match depth with
      | 0 => .error (.tooDeep true)
      | depth + 1 =>
        match skipSpace rest with
        | '\x7d' :: after => .ok (.map [], after)
        | rest' => do
          let (entries, after) ← readEntries depth fuel [] rest'
          return (.map entries, after)
    else if c = '[' then
      match depth with
      | 0 => .error (.tooDeep false)
      | depth + 1 =>
        match skipSpace rest with
        | ']' :: after => .ok (.list [], after)
        | rest' => do
          let (items, after) ← readItems depth fuel rest'
          return (.list items, after)
    else match word? (c :: rest) with
      | some found => .ok found
      | none => do
        let (n, after) ← if c = '-' then readNumber (c :: rest) true rest
          else readNumber (c :: rest) false (c :: rest)
        return (.number n, after)

/-- The items of a list from an item on, and what follows its closing bracket. -/
def readItems (depth : Nat) : Nat → List Char → Except Stop (List Value × List Char)
  | 0, s => .error (.fault .value s)
  | fuel + 1, s => do
    let (v, rest) ← readValue depth fuel s
    match skipSpace rest with
    | ']' :: after => return ([v], after)
    | ',' :: more =>
      let (items, after) ← readItems depth fuel (skipSpace more)
      return (v :: items, after)
    | rest' => throw (.fault .comma rest')

/-- The entries of a map from a key on, after those that were read before, and what follows its
closing brace. A key that comes again changes its entry. -/
def readEntries (depth : Nat) :
    Nat → List (String × Value) → List Char → Except Stop (List (String × Value) × List Char)
  | 0, _, s => .error (.fault .propertyName s)
  | fuel + 1, before, s =>
    match s with
    | '"' :: rest => do
      let (chars, rest) ← readText s rest.length rest
      match skipSpace rest with
      | ':' :: rest =>
        let (v, rest) ← readValue depth fuel (skipSpace rest)
        let entries := Value.setEntry before (String.ofList chars) v
        match skipSpace rest with
        | '\x7d' :: after => return (entries, after)
        | ',' :: more => readEntries depth fuel entries (skipSpace more)
        | rest' => throw (.fault .comma rest')
      | rest' => throw (.fault .colon rest')
    | _ => .error (.fault .propertyName s)

end

/-! ## Documents -/

/-- Line and column, both from one, of a position in a text. -/
def lineColumn (before : List Char) : Nat × Nat :=
  (before.count '\n' + 1, (before.reverse.takeWhile (· ≠ '\n')).length + 1)

/-- The error of a text, with the place of the fault. -/
def Stop.toError (s : List Char) : Stop → ReadError
  | .fault f rest =>
    let position := s.length - rest.length
    let (line, column) := lineColumn (s.take position)
    .malformed f line column position
  | .integerTooLong n => .integerTooLong n
  | .tooDeep m => .tooDeep m

/-- A whole document, with nothing but white space around it. -/
def readDocument (s : List Char) : Except Stop Value := do
  let start := skipSpace s
  let (v, rest) ← readValue nestingLimit (2 * start.length + 2) start
  match skipSpace rest with
  | [] => return v
  | extra => throw (.fault .extraData extra)

/-- Reads a document. A text that starts with a byte order mark is refused. -/
def read (s : String) : Except ReadError Value :=
  let chars := s.toList
  let outcome : Except Stop Value :=
    if chars.head? = some (Char.ofNat 0xFEFF) then .error (.fault .byteOrderMark chars)
    else readDocument chars
  outcome.mapError (Stop.toError chars)

/-! ## Octets -/

/-- How the text of a document is encoded. -/
inductive Encoding where
  | utf8
  | utf16 (order : Text.ByteOrder)
  | utf32 (order : Text.ByteOrder)
  deriving DecidableEq, Repr

/-- The encoding of a document and its octets without byte order mark: told by the mark if there is
one, and else by the places of zeros among the first octets. -/
def detect (bytes : List UInt8) : Encoding × List UInt8 :=
  match bytes with
  | 0x00 :: 0x00 :: 0xFE :: 0xFF :: rest => (.utf32 .big, rest)
  | 0xFF :: 0xFE :: 0x00 :: 0x00 :: rest => (.utf32 .little, rest)
  | 0xFE :: 0xFF :: rest => (.utf16 .big, rest)
  | 0xFF :: 0xFE :: rest => (.utf16 .little, rest)
  | 0xEF :: 0xBB :: 0xBF :: rest => (.utf8, rest)
  | a :: b :: c :: d :: _ =>
    if a = 0 then (if b = 0 then .utf32 .big else .utf16 .big, bytes)
    else if b = 0 then (if c = 0 && d = 0 then .utf32 .little else .utf16 .little, bytes)
    else (.utf8, bytes)
  | [a, b] =>
    if a = 0 then (.utf16 .big, bytes) else if b = 0 then (.utf16 .little, bytes)
    else (.utf8, bytes)
  | _ => (.utf8, bytes)

/-- The text of a document's octets. Surrogates pass, as they do in escapes. -/
def decode (bytes : List UInt8) : Option String :=
  match detect bytes with
  | (.utf8, rest) => (Text.Utf8.decodeLoose rest).toOption
  | (.utf16 order, rest) => Text.decode16 order rest
  | (.utf32 order, rest) => Text.decode32 order rest

/-- Reads a document from octets; `none` if they are no text or the text no document, unless it is
the nesting that is refused. A byte order mark is part of the encoding. -/
def readBytes (bytes : List UInt8) : Option (Except ReadError Value) :=
  (decode bytes).map fun s => (readDocument s.toList).mapError (Stop.toError s.toList)

end VideoExport.Json
