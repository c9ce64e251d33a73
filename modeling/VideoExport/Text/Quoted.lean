import VideoExport.Text.Printable

/-!
# Quoted text

Text between quotation marks, as messages show a name. Apostrophes are used unless the text holds
an apostrophe and no double quote; a backslash, the mark in use and every character that is not
printable are written as escapes.
-/

set_option autoImplicit false

namespace VideoExport.Text

/-- The lower-case hexadecimal digit of a value below sixteen. -/
def hexDigit (n : Nat) : Char := Nat.digitChar (n % 16)

/-- The last `width` hexadecimal digits of `n`. -/
def hexDigits : Nat → Nat → List Char
  | 0, _ => []
  | width + 1, n => hexDigits width (n / 16) ++ [hexDigit n]

/-- One character between quotation marks `mark`. -/
def quoteChar (mark : Char) (c : Char) : List Char :=
  if c = '\\' then ['\\', '\\']
  else if c = mark then ['\\', mark]
  else if c = '\n' then ['\\', 'n']
  else if c = '\r' then ['\\', 'r']
  else if c = '\t' then ['\\', 't']
  else if isPrintable c then [c]
  else if c.toNat < 0x100 then ['\\', 'x'] ++ hexDigits 2 c.toNat
  else if c.toNat < 0x10000 then ['\\', 'u'] ++ hexDigits 4 c.toNat
  else ['\\', 'U'] ++ hexDigits 8 c.toNat

/-- The quotation mark that a text takes. -/
def quoteMark (s : List Char) : Char :=
  if s.contains '\'' && !s.contains '"' then '"' else '\''

/-- The text between quotation marks. -/
def quoted (s : String) : String :=
  let mark := quoteMark s.toList
  String.ofList (mark :: (s.toList.flatMap (quoteChar mark) ++ [mark]))

/-- Octets between quotation marks after a `b`: those that are no printable ASCII are escapes. -/
def quotedOctets (bytes : List UInt8) : String :=
  let chars := bytes.map fun b => Char.ofNat b.toNat
  let mark := quoteMark chars
  let quote (c : Char) : List Char :=
    if c.toNat < 0x7F then quoteChar mark c else ['\\', 'x'] ++ hexDigits 2 c.toNat
  String.ofList ('b' :: mark :: (chars.flatMap quote ++ [mark]))

/-- Quoted texts in brackets. -/
def quotedList (items : List String) : String :=
  "[" ++ ", ".intercalate (items.map quoted) ++ "]"

end VideoExport.Text
