import VideoExport.Failure
import VideoExport.Text.Search

/-!
# Values as operands

What a computation does with a value of any kind. A number, and a switch as one or zero, can be
compared with another and divided; two texts can be compared, and so can two sequences of octets;
any value can be shown; a text is a path, and it has parts as a list has items. What the kind of a
value does not allow is a `Misuse` of it.
-/

set_option autoImplicit false

namespace VideoExport.Value

/-- A value as a filter is given it: a number in short, anything else as it is displayed. -/
def shown (v : Value) : Except NumericError String :=
  match v.asNumber? with
  | some n => n.compact
  | none => v.display

/-- Whether a value comes before another, if they have an order. -/
def before? (a b : Value) : Option Bool :=
  match a, b with
  | .text s, .text t => some (decide (s < t))
  | .octets s, .octets t => some (decide (s < t))
  | a, b => do return (← a.asNumber?).lt (← b.asNumber?)

/-- The failure of a comparison. -/
def incomparable (sign : String) (a b : Value) : Failure :=
  .misuse (.comparison sign a.kindName b.kindName)

/-- Refuses a value that cannot be compared with a number. -/
def checkComparison (v : Value) (sign : String) (n : Number) : Except Failure Unit :=
  if v.asNumber?.isSome then .ok () else .error (incomparable sign v (.number n))

/-- Refuses values of which one cannot be divided by the other. -/
def checkDivision (v w : Value) : Except Failure Unit :=
  if v.asNumber?.isSome && w.asNumber?.isSome then .ok ()
  else .error (.misuse (.arithmetic "/" v.kindName w.kindName))

/-- Refuses a value in which no characters can be replaced. -/
def checkReplacement (v : Value) : Except Failure Unit :=
  match v with
  | .text _ => .ok ()
  | .octets _ => .error (.misuse .textForOctets)
  | v => .error (.misuse (.part v.kindName "replace"))

/-- `v` brought into the range from `lo` to `hi`. A bound is taken also where `v` equals it. -/
def clampBetween (v lo hi : Value) : Except Failure Value := do
  match v.before? hi with
  | none => throw (incomparable "<" v hi)
  | some isBelow =>
    let atMost := if isBelow then v else hi
    match lo.before? atMost with
    | none => throw (incomparable ">" atMost lo)
    | some isAbove => return if isAbove then atMost else lo

/-- The integer of a value; a switch is one or zero. -/
def integer? (v : Value) : Option Int :=
  match v.asNumber? with
  | some (.int n) => some n
  | _ => none

/-- The path that a value gives. -/
def asPath (v : Value) : Except Failure String :=
  match v with
  | .text s => .ok s
  | v => .error (.misuse (.path v.kindName))

/-- Whether a value contains a text: as a part, as an item or as a key. -/
def containsText (v : Value) (part : String) : Except Failure Bool :=
  match v with
  | .text s => .ok (Text.occursIn part.toList s.toList)
  | .list items => .ok (items.any (·.isText part))
  | .map entries => .ok (entries.any (·.1 = part))
  | .octets _ => .error (.misuse .textForOctets)
  | v => .error (.misuse (.search v.kindName))

end VideoExport.Value
