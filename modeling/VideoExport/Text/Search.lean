/-!
# Occurrence

Whether one text occurs in another.
-/

set_option autoImplicit false

namespace VideoExport.Text

/-- Whether the characters `needle` occur in a row. -/
def occursIn (needle : List Char) : List Char → Bool
  | [] => needle.isEmpty
  | c :: rest => needle.isPrefixOf (c :: rest) || occursIn needle rest

end VideoExport.Text
