import VideoExport.Numeric.Number
import VideoExport.Text.Quoted

/-!
# Document values

The values of a JSON document, as settings and configuration files hold them, and octets, which no
document can hold but a caller can give. A map keeps its entries in order, each key once.
`Value.display` is the text of a value inside a message or where a text is wanted and something else
was given.
-/

set_option autoImplicit false

namespace VideoExport

/-- A value of a document. -/
inductive Value where
  | null
  | bool (b : Bool)
  | number (n : Number)
  | text (s : String)
  | octets (bytes : List UInt8)
  | list (items : List Value)
  | map (entries : List (String × Value))

instance : Inhabited Value := ⟨.null⟩

/-- Sets a key: an entry of that key keeps its place, a new one comes last. -/
def Value.setEntry (entries : List (String × Value)) (key : String) (value : Value) :
    List (String × Value) :=
  match entries with
  | [] => [(key, value)]
  | (k, v) :: rest => if k = key then (k, value) :: rest else (k, v) :: setEntry rest key value

namespace Value

/-- The value under a key of a map. -/
def get? (v : Value) (key : String) : Option Value :=
  match v with
  | .map entries => entries.lookup key
  | _ => none

/-- Whether a value is a certain text. -/
def isText (v : Value) (s : String) : Bool :=
  match v with
  | .text t => t == s
  | _ => false

/-- The number that a value stands for; a switch counts as 1 or 0. -/
def asNumber? : Value → Option Number
  | .number n => some n
  | .bool b => some (.int (if b then 1 else 0))
  | _ => none

/-- Empty values, zeros, `null` and `false` count as false, everything else as true. -/
def isTruthy : Value → Bool
  | .null => false
  | .bool b => b
  | .number n => !n.isZero
  | .text s => !s.isEmpty
  | .octets bytes => !bytes.isEmpty
  | .list items => !items.isEmpty
  | .map entries => !entries.isEmpty

mutual

/-- The text of a value as part of a larger one: a text is quoted. -/
def inner : Value → Except NumericError String
  | .null => .ok "None"
  | .bool b => .ok (if b then "True" else "False")
  | .number n => n.text
  | .text s => .ok (Text.quoted s)
  | .octets bytes => .ok (Text.quotedOctets bytes)
  | .list items => do return "[" ++ ", ".intercalate (← innerItems items) ++ "]"
  | .map entries => do return "\x7b" ++ ", ".intercalate (← innerEntries entries) ++ "\x7d"

def innerItems : List Value → Except NumericError (List String)
  | [] => .ok []
  | v :: rest => do return (← inner v) :: (← innerItems rest)

def innerEntries : List (String × Value) → Except NumericError (List String)
  | [] => .ok []
  | (k, v) :: rest => do return (Text.quoted k ++ ": " ++ (← inner v)) :: (← innerEntries rest)

end

/-- The text of a value; a text stands for itself. -/
def display : Value → Except NumericError String
  | .text s => .ok s
  | v => inner v

end Value

end VideoExport
