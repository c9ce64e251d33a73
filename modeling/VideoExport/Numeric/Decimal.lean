import VideoExport.Numeric.Binary64

/-!
# Decimal text of binary64 numbers

`Binary64.shortest` finds the fewest decimal digits that read back as the same number, and of
those the nearest; `Binary64.text` lays them out. `Binary64.fixed` writes a given number of decimal
places, `Binary64.roundPlaces` rounds to them, and `Binary64.significant` writes six significant
digits. All of it is exact arithmetic on the value; a tie goes to the even digit.
-/

set_option autoImplicit false

namespace VideoExport.Binary64

/-- A positive decimal `digits * 10 ^ exponent`. -/
structure Decimal where
  digits : Nat
  exponent : Int
  deriving DecidableEq

/-- `10 ^ e` for any integer `e`. -/
def tenPow (e : Int) : Rat :=
  if 0 ≤ e then (Nat.pow 10 e.toNat : Rat) else mkRat 1 (Nat.pow 10 (-e).toNat)

/-- Number of decimal digits; one for zero. -/
def digitCount (n : Nat) : Nat := (Nat.toDigits 10 n).length

/-- The largest `k` with `10 ^ k ≤ q`, for a positive `q`. -/
def floorLog10 (q : Rat) : Int :=
  let k : Int := (digitCount q.num.natAbs : Int) - (digitCount q.den : Int)
  if tenPow k ≤ q then k else k - 1

/-! ## Shortest digits -/

/-- The nearest of the two `count`-digit neighbours of `q` that read back as `x`. -/
def neighbour? (x : Binary64) (q : Rat) (count : Nat) : Option Decimal :=
  let e := floorLog10 q - (count : Int) + 1
  let scaled := q / tenPow e
  let low := scaled.floor.toNat
  let reads (d : Nat) : Bool := ofDecimal false d e == x
  let aboveHalf := decide (2 * (scaled - (low : Rat)) > 1)
  let half := decide (2 * (scaled - (low : Rat)) = 1)
  let upFirst := aboveHalf || (half && low % 2 == 1)
  let order := if upFirst then [low + 1, low] else [low, low + 1]
  (order.find? reads).map fun d =>
    if d = Nat.pow 10 count then ⟨Nat.pow 10 (count - 1), e + 1⟩ else ⟨d, e⟩

/-- The shortest decimal that reads back as the positive number `x` of value `q`. Seventeen digits
always suffice. -/
def shortest (x : Binary64) (q : Rat) : Decimal :=
  ((List.range 17).findSome? fun i => neighbour? x q (i + 1)).getD ⟨0, 0⟩

/-! ## Layout -/

/-- The text of a digit sequence. -/
def digitText (n : Nat) : String := String.ofList (Nat.toDigits 10 n)

def zeros (n : Nat) : String := String.ofList (List.replicate n '0')

/-- Digits with the decimal point `point` places after the first digit's left edge. -/
def placePoint (digits : String) (point : Int) : String :=
  let n := digits.length
  if point ≤ 0 then "0." ++ zeros (-point).toNat ++ digits
  else if (n : Int) ≤ point then digits ++ zeros (point - n).toNat ++ ".0"
  else
    let (whole, fraction) := digits.toList.splitAt point.toNat
    String.ofList whole ++ "." ++ String.ofList fraction

/-- Exponent part: a sign and at least two digits. -/
def exponentText (e : Int) : String :=
  let d := digitText e.natAbs
  (if e < 0 then "e-" else "e+") ++ (if d.length < 2 then "0" ++ d else d)

/-- Digits before an exponent: one digit, then a point and the others if there are any. -/
def leadPoint (digits : String) : String :=
  match digits.toList with
  | [] => ""
  | [c] => String.singleton c
  | c :: rest => String.singleton c ++ "." ++ String.ofList rest

/-- Shortest text that reads back: positional for decimal exponents from -4 to 15, and otherwise
with an exponent. -/
def text : Binary64 → String
  | .nan => "nan"
  | .infinite s => if s then "-inf" else "inf"
  | .finite x =>
    let sign := if x.negative then "-" else ""
    if x.mantissa = 0 then sign ++ "0.0"
    else
      let magnitude : Finite := { x with negative := false }
      let d := shortest (.finite magnitude) magnitude.value
      let digits := digitText d.digits
      let point := d.exponent + digits.length
      if -4 < point && point ≤ 16 then sign ++ placePoint digits point
      else sign ++ leadPoint digits ++ exponentText (point - 1)

/-! ## Fixed places -/

/-- `q * 10 ^ places` to the nearest integer, in magnitude. -/
def scaledPlaces (q : Rat) (places : Nat) : Nat :=
  let s := q * (Nat.pow 10 places : Rat)
  nearest s.num.natAbs s.den

/-- `n / 10 ^ places` in positional digits. -/
def placesText (n places : Nat) : String :=
  let whole := digitText (n / Nat.pow 10 places)
  if places = 0 then whole
  else
    let fraction := digitText (n % Nat.pow 10 places)
    whole ++ "." ++ zeros (places - fraction.length) ++ fraction

/-- Text with a fixed number of decimal places. -/
def fixed (x : Binary64) (places : Nat) : String :=
  match x with
  | .nan => "nan"
  | .infinite s => if s then "-inf" else "inf"
  | .finite f => (if f.negative then "-" else "") ++ placesText (scaledPlaces f.value places) places

/-- Every number is the one nearest to its value rounded to more places than these. -/
def enoughPlaces : Nat := 323

/-- The number nearest to the value rounded to decimal places. -/
def roundPlaces (x : Binary64) (places : Nat) : Binary64 :=
  if enoughPlaces < places then x
  else match x with
  | .finite f => roundRatio f.negative (scaledPlaces f.value places) (Nat.pow 10 places)
  | other => other

/-! ## Significant digits -/

/-- Drops the zeros that end a fraction, and its point if nothing is left of it. -/
def trimFraction (s : String) : String :=
  if s.toList.contains '.' then
    let kept := (s.toList.reverse.dropWhile (· == '0'))
    String.ofList (match kept with
      | '.' :: rest => rest.reverse
      | other => other.reverse)
  else s

/-- `q` to `count` significant digits. -/
def leading (q : Rat) (count : Nat) : Decimal :=
  let e := floorLog10 q - (count : Int) + 1
  let s := q / tenPow e
  let n := nearest s.num.natAbs s.den
  if n = Nat.pow 10 count then ⟨Nat.pow 10 (count - 1), e + 1⟩ else ⟨n, e⟩

/-- Six significant digits: positional for decimal exponents from -4 to 5, otherwise with an
exponent; zeros that end the fraction are dropped. -/
def significant : Binary64 → String
  | .nan => "nan"
  | .infinite s => if s then "-inf" else "inf"
  | .finite x =>
    let sign := if x.negative then "-" else ""
    if x.mantissa = 0 then sign ++ "0"
    else
      let magnitude : Finite := { x with negative := false }
      let d := leading magnitude.value 6
      let digits := digitText d.digits
      let point := d.exponent + digits.length
      if -4 < point && point ≤ 6 then sign ++ trimFraction (placePoint digits point)
      else sign ++ trimFraction (leadPoint digits) ++ exponentText (point - 1)

end VideoExport.Binary64
