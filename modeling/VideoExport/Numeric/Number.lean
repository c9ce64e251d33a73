import VideoExport.Numeric.Decimal

/-!
# Numbers of a document

A number is an integer of any size or a binary64 number; which of the two it is shows in its text.
Comparisons are by exact value, across the two kinds. Arithmetic on two integers is exact where the
result is an integer; any other arithmetic converts to binary64 first, which an integer beyond the
range refuses (`NumericError.tooLargeForReal`).
-/

set_option autoImplicit false

namespace VideoExport

/-- Why a numeric operation has no result. -/
inductive NumericError where
  /-- An integer lies beyond the binary64 range. -/
  | tooLargeForReal
  /-- The quotient of two integers lies beyond the binary64 range. -/
  | quotientTooLarge
  /-- An integer has more decimal digits than may be written. -/
  | tooManyDigits
  /-- A binary64 number was divided by zero. -/
  | divisionByZero
  /-- `nan` has no integer nearest to it. -/
  | nanToInteger
  /-- An infinity has no integer nearest to it. -/
  | infinityToInteger
  /-- A logarithm of a number that is not positive. -/
  | domain
  deriving DecidableEq, Repr

/-- The longest integer that may be written or read, in decimal digits. -/
def digitLimit : Nat := 4300

/-- An integer or a binary64 number. -/
inductive Number where
  | int (n : Int)
  | real (x : Binary64)
  deriving DecidableEq

namespace Number

instance : Inhabited Number := ⟨.int 0⟩

instance (n : Nat) : OfNat Number n := ⟨.int n⟩

/-- The binary64 number written `digits * 10 ^ -places`. -/
def decimal (digits places : Nat) : Number := .real (.ofDecimal false digits (-(places : Int)))

/-! ## Order -/

/-- Place on the extended line; `nan` has none. -/
def place? : Number → Option (Int × Rat)
  | .int n => some (0, n)
  | .real x => x.place?

/-- Strictly below, by exact value. -/
def lt (a b : Number) : Bool :=
  match a.place?, b.place? with
  | some (i, p), some (j, q) => decide (i < j) || (i == j && decide (p < q))
  | _, _ => false

/-- Same exact value. -/
def same (a b : Number) : Bool :=
  match a.place?, b.place? with
  | some (i, p), some (j, q) => i == j && p == q
  | _, _ => false

def le (a b : Number) : Bool := lt a b || same a b

/-- The smaller; the first if neither is smaller. -/
def least (a b : Number) : Number := if lt b a then b else a

/-- The larger; the first if neither is larger. -/
def greatest (a b : Number) : Number := if lt a b then b else a

/-- `n` brought into the range from `lo` to `hi`. A bound is taken also where `n` equals it. -/
def clamp (n lo hi : Number) : Number := greatest lo (least hi n)

/-- Zero of either kind. -/
def isZero (a : Number) : Bool := a.same (.int 0)

/-! ## Conversions -/

/-- The nearest binary64 number; an integer that would round beyond the range is refused. -/
def toReal : Number → Except NumericError Binary64
  | .real x => .ok x
  | .int n => match Binary64.ofInt n with
    | .infinite _ => .error .tooLargeForReal
    | x => .ok x

/-- Neither `nan` nor infinite, nor an integer beyond the binary64 range. -/
def isFinite : Number → Bool
  | .real x => x.isFinite
  | .int n => (Binary64.ofInt n).isFinite

/-- The nearest integer; a tie goes to the even one. -/
def roundToInt : Number → Except NumericError Int
  | .int n => .ok n
  | .real .nan => .error .nanToInteger
  | .real (.infinite _) => .error .infinityToInteger
  | .real (.finite x) => .ok (Binary64.nearestInt x.value)

/-- The integer part, toward zero. -/
def truncate : Number → Except NumericError Int
  | .int n => .ok n
  | .real .nan => .error .nanToInteger
  | .real (.infinite _) => .error .infinityToInteger
  | .real (.finite x) => .ok x.truncate

/-! ## Arithmetic -/

/-- Applies an integer operation to two integers and a binary64 operation otherwise. -/
def combine (onInts : Int → Int → Int) (onReals : Binary64 → Binary64 → Binary64) (a b : Number) :
    Except NumericError Number :=
  match a, b with
  | .int m, .int n => .ok (.int (onInts m n))
  | a, b => do return .real (onReals (← a.toReal) (← b.toReal))

def add : Number → Number → Except NumericError Number := combine (· + ·) Binary64.add
def sub : Number → Number → Except NumericError Number := combine (· - ·) Binary64.sub
def mul : Number → Number → Except NumericError Number := combine (· * ·) Binary64.mul

/-- The quotient as a binary64 number, rounded once. -/
def div (a b : Number) : Except NumericError Number :=
  match a, b with
  | .int m, .int n =>
    if n = 0 then .error .divisionByZero
    else match Binary64.round ((m : Rat) / (n : Rat)) false with
      | .infinite _ => .error .quotientTooLarge
      | x => .ok (.real x)
  | a, b => do
    match Binary64.div? (← a.toReal) (← b.toReal) with
    | some x => return .real x
    | none => throw .divisionByZero

/-- Rounded to decimal places; an integer stays as it is. -/
def roundPlaces (a : Number) (places : Nat) : Number :=
  match a with
  | .int n => .int n
  | .real x => .real (x.roundPlaces places)

/-! ## Text -/

/-- Decimal text of an integer of at most `digitLimit` digits. -/
def intText (n : Int) : Except NumericError String :=
  if n.natAbs < Nat.pow 10 digitLimit then
    .ok ((if n < 0 then "-" else "") ++ Binary64.digitText n.natAbs)
  else .error .tooManyDigits

/-- Text that reads back as the same number of the same kind. -/
def text : Number → Except NumericError String
  | .int n => intText n
  | .real x => .ok x.text

/-- Text for a filter: an integral value has no decimal point. -/
def compact : Number → Except NumericError String
  | .int n => intText n
  | .real (.finite x) =>
    if (Binary64.finite x).isInteger then intText x.truncate else .ok (Binary64.finite x).text
  | .real x => .ok x.text

end Number

end VideoExport
