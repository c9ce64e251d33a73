/-!
# Ranges of code points

A class of characters is written as the ascending list of its ranges of code points.
-/

set_option autoImplicit false

namespace VideoExport.Text

/-- A list of inclusive ranges of code points, in ascending order. -/
abbrev Ranges := List (Nat × Nat)

/-- Whether some range holds the code point. -/
def Ranges.holds (ranges : Ranges) (code : Nat) : Bool :=
  ranges.any fun (first, last) => first ≤ code && code ≤ last

end VideoExport.Text
