/-!
# Binary64 numbers

The 64-bit binary floating-point numbers, with exact values in `Rat`. `Binary64.round` takes a
rational to the nearest number (a tie goes to the even significand); every operation computes the
exact result and rounds it once. `Binary64.value?` gives the exact value of a finite number back.
-/

set_option autoImplicit false

namespace VideoExport

/-- The least number of 54 bits, which is two to the power of 53. -/
abbrev Binary64.mantissaLimit : Nat := 9007199254740992

/-- The least number of 53 bits. -/
abbrev Binary64.mantissaFloor : Nat := 4503599627370496

/-- Canonical significand and exponent: 53 bits, fewer only at the least exponent. -/
def Binary64.Canonical (mantissa : Nat) (exponent : Int) : Prop :=
  mantissa < mantissaLimit ∧ -1074 ≤ exponent ∧ exponent ≤ 971 ∧
    (mantissaFloor ≤ mantissa ∨ exponent = -1074)

instance (mantissa : Nat) (exponent : Int) : Decidable (Binary64.Canonical mantissa exponent) :=
  inferInstanceAs (Decidable (_ ∧ _ ∧ _ ∧ _))

/-- A finite number: `± mantissa * 2 ^ exponent`. Both zeros have the least exponent. -/
structure Binary64.Finite where
  negative : Bool
  mantissa : Nat
  exponent : Int
  canonical : Binary64.Canonical mantissa exponent
  deriving DecidableEq

/-- A 64-bit binary floating-point number. -/
inductive Binary64 where
  | nan
  | infinite (negative : Bool)
  | finite (x : Binary64.Finite)
  deriving DecidableEq

namespace Binary64

/-- `2 ^ e` for any integer `e`. -/
def twoPow (e : Int) : Rat :=
  if 0 ≤ e then (Nat.pow 2 e.toNat : Rat) else mkRat 1 (Nat.pow 2 (-e).toNat)

/-- The exact value. -/
def Finite.value (x : Finite) : Rat :=
  let magnitude := (x.mantissa : Rat) * twoPow x.exponent
  if x.negative then -magnitude else magnitude

/-- The exact value of a finite number. -/
def value? : Binary64 → Option Rat
  | .finite x => some x.value
  | _ => none

/-- The sign bit; `nan` counts as positive. -/
def isNegative : Binary64 → Bool
  | .nan => false
  | .infinite s => s
  | .finite x => x.negative

def isFinite : Binary64 → Bool
  | .finite _ => true
  | _ => false

def isNaN : Binary64 → Bool
  | .nan => true
  | _ => false

/-- Zero with the given sign. -/
def zero (negative : Bool) : Binary64 :=
  .finite ⟨negative, 0, -1074, by decide⟩

instance : Inhabited Binary64 := ⟨zero false⟩

/-! ## Rounding -/

/-- The integer nearest to `num / den`; a tie goes to the even one. -/
def nearest (num den : Nat) : Nat :=
  let q := num / den
  let r := num % den
  if 2 * r < den then q else if den < 2 * r then q + 1 else if q % 2 = 0 then q else q + 1

/-- The largest `p` with `2 ^ p ≤ num / den`, for positive `num` and `den`. -/
def floorLog2 (num den : Nat) : Int :=
  let k : Int := (num.log2 : Int) - (den.log2 : Int)
  let fits :=
    if 0 ≤ k then den * Nat.pow 2 k.toNat ≤ num else den ≤ num * Nat.pow 2 (-k).toNat
  if fits then k else k - 1

/-- A significand and its exponent as a number; what lies beyond the exponents is infinite. -/
def assemble (negative : Bool) (mantissa : Nat) (exponent : Int) : Binary64 :=
  let (m, e) :=
    if mantissa = mantissaLimit then (mantissaFloor, exponent + 1) else (mantissa, exponent)
  if h : Canonical m e then .finite ⟨negative, m, e, h⟩ else .infinite negative

/-- The number nearest to `num / den` in magnitude. -/
def roundRatio (negative : Bool) (num den : Nat) : Binary64 :=
  if num = 0 then zero negative
  else
    let e := max (floorLog2 num den - 52) (-1074)
    let m :=
      if 0 ≤ e then nearest num (den * Nat.pow 2 e.toNat)
      else nearest (num * Nat.pow 2 (-e).toNat) den
    assemble negative m e

/-- The number nearest to `q`. A zero `q` takes the sign `zeroNegative`. -/
def round (q : Rat) (zeroNegative : Bool) : Binary64 :=
  if q.num = 0 then zero zeroNegative
  else roundRatio (decide (q.num < 0)) q.num.natAbs q.den

/-- The number nearest to an integer. -/
def ofInt (n : Int) : Binary64 := round (n : Rat) false

/-- The number nearest to `digits * 10 ^ exponent`. Far beyond either end of the range the power is
not computed: the outcome is infinite or zero. -/
def ofDecimal (negative : Bool) (digits : Nat) (exponent : Int) : Binary64 :=
  if digits = 0 then zero negative
  else if 400 < exponent then .infinite negative
  else if exponent + digits.log2 < -400 then zero negative
  else if 0 ≤ exponent then roundRatio negative (digits * Nat.pow 10 exponent.toNat) 1
  else roundRatio negative digits (Nat.pow 10 (-exponent).toNat)

/-! ## Order

Numbers are compared by value; `nan` is unordered with everything, itself included. -/

/-- Place on the extended line: below all rationals, a rational, or above them. -/
def place? : Binary64 → Option (Int × Rat)
  | .nan => none
  | .infinite true => some (-1, 0)
  | .infinite false => some (1, 0)
  | .finite x => some (0, x.value)

/-! ## Arithmetic -/

def neg : Binary64 → Binary64
  | .nan => .nan
  | .infinite s => .infinite (!s)
  | .finite x => .finite { x with negative := !x.negative }

/-- Exact sum, rounded. A zero sum is negative only if both terms are negative zeros. -/
def add : Binary64 → Binary64 → Binary64
  | .finite x, .finite y => round (x.value + y.value) (x.negative && y.negative)
  | .infinite s, .infinite t => if s = t then .infinite s else .nan
  | .infinite s, .finite _ => .infinite s
  | .finite _, .infinite t => .infinite t
  | _, _ => .nan

def sub (x y : Binary64) : Binary64 := add x y.neg

/-- Exact product, rounded. -/
def mul : Binary64 → Binary64 → Binary64
  | .nan, _ => .nan
  | _, .nan => .nan
  | .finite x, .finite y => round (x.value * y.value) (x.negative != y.negative)
  | .finite x, .infinite t => if x.mantissa = 0 then .nan else .infinite (x.negative != t)
  | .infinite s, .finite y => if y.mantissa = 0 then .nan else .infinite (s != y.negative)
  | .infinite s, .infinite t => .infinite (s != t)

/-- Exact quotient, rounded; `none` for a zero divisor. -/
def div? : Binary64 → Binary64 → Option Binary64
  | x, .finite y =>
    if y.mantissa = 0 then none
    else match x with
      | .nan => some .nan
      | .infinite s => some (.infinite (s != y.negative))
      | .finite x => some (round (x.value / y.value) (x.negative != y.negative))
  | .nan, _ => some .nan
  | _, .nan => some .nan
  | .infinite _, .infinite _ => some .nan
  | .finite x, .infinite t => some (zero (x.negative != t))

/-! ## Integers -/

/-- Whether the value is an integer. -/
def isInteger : Binary64 → Bool
  | .finite x => x.value.den == 1
  | _ => false

/-- The integer part, toward zero. -/
def Finite.truncate (x : Finite) : Int := Int.tdiv x.value.num x.value.den

/-- The integer nearest to `q`; a tie goes to the even one. -/
def nearestInt (q : Rat) : Int :=
  let n : Int := nearest q.num.natAbs q.den
  if q.num < 0 then -n else n

end Binary64

end VideoExport
