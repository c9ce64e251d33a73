import VideoExport.Numeric.Logarithm
import VideoExport.Operand

/-!
# Sizes for people

`Size.text` shows a number of bytes in the largest of five units that it fills.
-/

set_option autoImplicit false

namespace VideoExport.Size

/-- Units, each of 1024 of the one before. -/
def units : List String := ["Bytes", "KB", "MB", "GB", "TB"]

/-- The place of the unit of a size among the units: its logarithm to the base of 1024, no higher
than the largest unit. A size below one has a negative place. -/
def unitPlace (size : Number) : Except NumericError Int := do
  let q ← (Number.real (← Binary64.log size)).div (.real (← Binary64.log 1024))
  match q with
  | .real (.finite x) => return min x.value.floor ((units.length : Int) - 1)
  | .real .nan => throw .nanToInteger
  | _ => throw .infinityToInteger

/-- The unit at a place; negative places count from the end. -/
def unitAt? (place : Int) : Option String :=
  if 0 ≤ place then units[place.toNat]?
  else if -(units.length : Int) ≤ place then units[(units.length + place).toNat]?
  else none

/-- A power of 1024. -/
def unitSize (place : Int) : Number := .real (Binary64.round (Binary64.twoPow (10 * place)) false)

/-- The place of a size's unit, and the size in that unit. -/
def inUnit (size : Number) : Except NumericError (Int × Number) := do
  let place ← unitPlace size
  return (place, ← size.div (unitSize place))

/-- A number of units as text, with at most `places` decimals. -/
def describe (place : Int) (q : Number) (places : Nat) : Except Failure String := do
  let shown ← ((q.roundPlaces places).toReal).mapError .numeric
  match unitAt? place with
  | some unit => return s!"{shown.significant} {unit}"
  | none => throw .outOfRange

/-- What is said of a size of nothing. -/
def nothing : String := "0 Bytes"

/-- The text of a size, with at most `places` decimals. -/
def text (size : Number) (places : Nat) : Except Failure String :=
  if size.isZero then .ok nothing
  else do
    let (place, q) ← (inUnit size).mapError .numeric
    describe place q places

/-- The text of a size with a number of decimals, both of any kind. Decimals below zero are none. -/
def textOf (size places : Value) : Except Failure String :=
  if !size.isTruthy then .ok nothing
  else match places.before? (.number 0), size.asNumber? with
    | none, _ => .error (Value.incomparable ">" (.number 0) places)
    | some _, none => .error (.misuse (.real size.kindName))
    | some isNegative, some n => do
      let (place, q) ← (inUnit n).mapError .numeric
      if isNegative then describe place q 0
      else match places.integer? with
        | some k => describe place q k.toNat
        | none => throw (.misuse (.integer places.kindName))

end VideoExport.Size
