import VideoExport.Numeric.Number

/-!
# Natural logarithm

`Binary64.log` rounds an approximation of the natural logarithm that carries 160 binary places, far
beyond the 53 that are kept. The series is `log m = 2 * artanh ((m - 1) / (m + 1))` on a significand
`m` between 1 and 2, and `log (m * 2 ^ e) = log m + e * log 2`.
-/

set_option autoImplicit false

namespace VideoExport.Binary64

/-- Binary places of the fixed-point approximation. -/
def logPlaces : Nat := 160

/-- One in fixed point. -/
def logUnit : Nat := Nat.pow 2 logPlaces

/-- Terms `z ^ (2 k + 1) / (2 k + 1)` of `artanh z`, in fixed point, for the exponents that
remain. -/
def artanhTerms (square : Int) : Nat → Nat → Int → Int
  | 0, _, _ => 0
  | fuel + 1, odd, power =>
    power / odd + artanhTerms square fuel (odd + 2) (power * square / logUnit)

/-- `2 * artanh (num / den)` in fixed point; the ratio is at most one third. -/
def twiceArtanh (num den : Int) : Int :=
  let z := num * logUnit / den
  2 * artanhTerms (z * z / logUnit) 60 1 z

/-- The natural logarithm of a positive rational. -/
def logOfRat (q : Rat) : Binary64 :=
  let e := floorLog2 q.num.natAbs q.den
  let m := q / twoPow e
  let scaled := twiceArtanh (m.num - m.den) (m.num + m.den) + e * twiceArtanh 1 3
  round (mkRat scaled (logUnit)) false

/-- The natural logarithm; zero and negative numbers have none. -/
def log : Number → Except NumericError Binary64
  | .int n => if n ≤ 0 then .error .domain else .ok (logOfRat n)
  | .real .nan => .ok .nan
  | .real (.infinite s) => if s then .error .domain else .ok (.infinite false)
  | .real (.finite x) => if x.value ≤ 0 then .error .domain else .ok (logOfRat x.value)

end VideoExport.Binary64
