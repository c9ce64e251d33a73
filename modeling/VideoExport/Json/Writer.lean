import VideoExport.Json.Value

/-!
# Writing JSON

`Json.write` renders a document value under a `Json.Layout`. Numbers are written so that they read
back; `nan` and the infinities have names of their own, which a layout may refuse. Of several values
that cannot be written, the first in the order of writing is reported.
-/

set_option autoImplicit false

namespace VideoExport.Json

/-- How a document is laid out. -/
structure Layout where
  /-- Text of one level of indentation; without it everything is on one line. -/
  indent : Option String := none
  /-- Escape everything outside ASCII. -/
  asciiOnly : Bool := true
  /-- Write the keys of a map in ascending order. -/
  sortKeys : Bool := false
  itemSeparator : String := ", "
  keySeparator : String := ": "
  /-- Write `nan` and the infinities. -/
  allowNonFinite : Bool := true

/-- Why a value cannot be written. -/
inductive WriteError where
  | numeric (e : NumericError)
  /-- The layout refuses numbers that are not finite; an indented layout names the number. -/
  | notFinite (shown : Option String)
  /-- Octets have no place in a document. -/
  | octets
  deriving DecidableEq, Repr

/-- A unit of UTF-16 as an escape. -/
def unitEscape (unit : Nat) : List Char := ['\\', 'u'] ++ Text.hexDigits 4 unit

/-- A character of a text. -/
def writeChar (asciiOnly : Bool) (c : Char) : List Char :=
  if c = '"' then ['\\', '"']
  else if c = '\\' then ['\\', '\\']
  else if c = '\n' then ['\\', 'n']
  else if c = '\r' then ['\\', 'r']
  else if c = '\t' then ['\\', 't']
  else if c = Char.ofNat 8 then ['\\', 'b']
  else if c = Char.ofNat 12 then ['\\', 'f']
  else if c.toNat < 0x20 then unitEscape c.toNat
  else if !asciiOnly || c.toNat < 0x7F then [c]
  else if c.toNat < 0x10000 then unitEscape c.toNat
  else
    let v := c.toNat - 0x10000
    unitEscape (0xD800 + v / 0x400) ++ unitEscape (0xDC00 + v % 0x400)

/-- A text between double quotes. -/
def writeText (asciiOnly : Bool) (s : String) : String :=
  String.ofList ('"' :: (s.toList.flatMap (writeChar asciiOnly) ++ ['"']))

def writeNumber (layout : Layout) (n : Number) : Except WriteError String :=
  let refused (name : String) (x : Binary64) : Except WriteError String :=
    if layout.allowNonFinite then .ok name
    else .error (.notFinite (if layout.indent.isSome then some x.text else none))
  match n with
  | .real .nan => refused "NaN" .nan
  | .real (.infinite false) => refused "Infinity" (.infinite false)
  | .real (.infinite true) => refused "-Infinity" (.infinite true)
  | n => match n.text with
    | .ok s => .ok s
    | .error e => .error (.numeric e)

/-- Line break and indentation of a level, if the layout has any. -/
def newline (layout : Layout) (level : Nat) : String :=
  match layout.indent with
  | none => ""
  | some unit => "\n" ++ String.join (List.replicate level unit)

/-- Items between brackets, each on a line of its own if the layout indents. -/
def bracketed (layout : Layout) (level : Nat) (opening closing : String) (items : List String) :
    String :=
  if items.isEmpty then opening ++ closing
  else
    opening ++ newline layout (level + 1)
      ++ (layout.itemSeparator ++ newline layout (level + 1)).intercalate items
      ++ newline layout level ++ closing

/-- Entries in the order in which the layout writes them. -/
def ordered {α : Type} (layout : Layout) (entries : List (String × α)) : List (String × α) :=
  if layout.sortKeys then entries.mergeSort fun a b => decide (a.1 ≤ b.1) else entries

mutual

def writeAt (layout : Layout) (level : Nat) : Value → Except WriteError String
  | .null => .ok "null"
  | .bool b => .ok (if b then "true" else "false")
  | .number n => writeNumber layout n
  | .text s => .ok (writeText layout.asciiOnly s)
  | .octets _ => .error .octets
  | .list items => do
    return bracketed layout level "[" "]" (← writeItems layout (level + 1) items)
  | .map entries => do
    let written ← (ordered layout (writeEntries layout (level + 1) entries)).mapM fun (k, s) => do
      return writeText layout.asciiOnly k ++ layout.keySeparator ++ (← s)
    return bracketed layout level "\x7b" "\x7d" written

def writeItems (layout : Layout) (level : Nat) : List Value → Except WriteError (List String)
  | [] => .ok []
  | v :: rest => do return (← writeAt layout level v) :: (← writeItems layout level rest)

/-- The entries of a map, each with its text or why it cannot be written. -/
def writeEntries (layout : Layout) (level : Nat) :
    List (String × Value) → List (String × Except WriteError String)
  | [] => []
  | (k, v) :: rest => (k, writeAt layout level v) :: writeEntries layout level rest

end

/-- Renders a document. -/
def write (layout : Layout) (v : Value) : Except WriteError String := writeAt layout 0 v

end VideoExport.Json
