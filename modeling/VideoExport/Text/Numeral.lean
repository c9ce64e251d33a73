import VideoExport.Numeric.Number
import VideoExport.Text.Blank
import VideoExport.Text.DecimalDigit

/-!
# Numerals in text

Reading an integer or a binary64 number from text. Blanks around a numeral are ignored, digits of
any script count, and a single underscore may stand between two digits. `readInteger?` has the limit
of `digitLimit` digits; `readReal?` also knows the names of the infinities and of `nan`.
-/

set_option autoImplicit false

namespace VideoExport.Text

/-- Blanks that may surround a numeral: all of them but the separators of ASCII. -/
def isNumeralBlank (c : Char) : Bool := isBlank c && !(28 ≤ c.toNat && c.toNat ≤ 31)

/-- A numeral without the blanks around it. -/
def trimNumeral (s : List Char) : List Char :=
  ((s.dropWhile isNumeralBlank).reverse.dropWhile isNumeralBlank).reverse

/-- A numeral without the blanks around it and with its digits in ASCII. -/
def plainNumeral (s : String) : List Char :=
  (trimNumeral s.toList).map fun c => match digitValue? c with
    | some d => Nat.digitChar d
    | none => c

/-- Drops underscores that stand between digits; `none` if one stands elsewhere. `previous` tells
whether a digit comes before. -/
def dropUnderscores (previous : Bool) : List Char → Option (List Char)
  | [] => some []
  | '_' :: c :: rest =>
    if previous && c.isDigit then (dropUnderscores true rest).map (c :: ·) else none
  | '_' :: [] => none
  | c :: rest => (dropUnderscores c.isDigit rest).map (c :: ·)

/-- The sign of a numeral and what follows it. -/
def splitSign : List Char → Bool × List Char
  | '+' :: rest => (false, rest)
  | '-' :: rest => (true, rest)
  | s => (false, s)

/-- The value of decimal digits in ASCII. -/
def decimalValue (digits : List Char) : Nat :=
  digits.foldl (fun acc c => acc * 10 + (c.toNat - '0'.toNat)) 0

/-- Reads an integer of at most `digitLimit` digits. -/
def readInteger? (s : String) : Option Int := do
  let (negative, digits) := splitSign (← dropUnderscores false (plainNumeral s))
  if digits.isEmpty || !digits.all Char.isDigit || digitLimit < digits.length then none
  else
    let value : Int := decimalValue digits
    return if negative then -value else value

/-- The names of numbers that are not finite. -/
def namedReal? (negative : Bool) (s : List Char) : Option Binary64 :=
  match String.ofList (s.map Char.toLower) with
  | "inf" | "infinity" => some (.infinite negative)
  | "nan" => some .nan
  | _ => none

/-- The exponent part of a numeral: empty, or a letter, a sign and digits. -/
def readExponent? : List Char → Option Int
  | [] => some 0
  | e :: rest =>
    let (negative, digits) := splitSign rest
    if (e = 'e' || e = 'E') && !digits.isEmpty && digits.all Char.isDigit then
      let value : Int := decimalValue digits
      some (if negative then -value else value)
    else none

/-- The binary64 number of a numeral in ASCII without blanks. -/
def plainReal? (s : List Char) : Option Binary64 :=
  let (negative, body) := splitSign s
  (namedReal? negative body) <|> do
    let whole := body.takeWhile Char.isDigit
    let afterWhole := body.dropWhile Char.isDigit
    let (fraction, rest) := match afterWhole with
      | '.' :: more => (more.takeWhile Char.isDigit, more.dropWhile Char.isDigit)
      | other => ([], other)
    if whole.isEmpty && fraction.isEmpty then none
    else
      let exponent ← readExponent? rest
      return .ofDecimal negative (decimalValue (whole ++ fraction)) (exponent - fraction.length)

/-- Reads a binary64 number. -/
def readReal? (s : String) : Option Binary64 := do
  plainReal? (← dropUnderscores false (plainNumeral s))

end VideoExport.Text
