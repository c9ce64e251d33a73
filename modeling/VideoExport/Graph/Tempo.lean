import VideoExport.Numeric.Number

/-!
# Tempo factors

The sound filter takes factors from one half to two only. `tempoFactors` splits a speed into such
factors: halves or doubles come first, and the last factor is what remains of the speed.
-/

set_option autoImplicit false

namespace VideoExport

namespace Binary64

/-- The number two. -/
def two : Binary64 := ofInt 2

/-- The number one half. -/
def half : Binary64 := ofDecimal false 5 (-1)

end Binary64

/-- Divides by `divisor` as long as the test asks for it: the number of divisions and what is
left. -/
def divideWhile (test : Binary64 → Bool) (divisor : Binary64) : Nat → Binary64 → Nat × Binary64
  | 0, x => (0, x)
  | fuel + 1, x =>
    if test x then
      match Binary64.div? x divisor with
      | some y =>
        let (n, rest) := divideWhile test divisor fuel y
        (n + 1, rest)
      | none => (0, x)
    else (0, x)

/-- No finite number can be halved or doubled more often before it lies between one half and two. -/
def tempoSteps : Nat := 1100

/-- Factors from one half to two whose product is the speed. A speed that is not positive has none,
and an infinite one is left whole. -/
def tempoFactors (rate : Number) : Except NumericError (List Number) :=
  if rate.le 0 then .ok []
  else if (Number.real .two).lt rate then do
    let x ← rate.toReal
    if !x.isFinite then return [rate]
    let (n, rest) := divideWhile (fun y => (Number.real .two).lt (.real y)) .two tempoSteps x
    return List.replicate n (.real .two) ++ [.real rest]
  else if rate.lt (.real .half) then do
    let x ← rate.toReal
    let (n, rest) := divideWhile (fun y => (Number.real y).lt (.real .half)) .half tempoSteps x
    return List.replicate n (.real .half) ++ [.real rest]
  else .ok [rate]

end VideoExport
