/-!
# Text from octets

Decoding of UTF-8, and of UTF-16 and UTF-32 in either order of octets. `Utf8.decode` tells where and
why a sequence is malformed; the other forms only tell that one is. A code point that stands for no
character, a surrogate, is malformed in UTF-8 unless the reader lets it pass; where it passes, a
replacement stands for it.
-/

set_option autoImplicit false

namespace VideoExport.Text

/-- The character of a code point; a surrogate stands for no character and is replaced. -/
def charOfCode (code : Nat) : Char :=
  if 0xD800 ≤ code && code ≤ 0xDFFF then Char.ofNat 0xFFFD else Char.ofNat code

namespace Utf8

/-- Why a sequence of octets is no UTF-8. -/
inductive Fault where
  | startByte
  | continuationByte
  | endOfData
  deriving DecidableEq, Repr

/-- A fault at `position`, spanning `length` octets of which `first` is the first. -/
structure Error where
  fault : Fault
  position : Nat
  length : Nat
  first : UInt8
  deriving DecidableEq, Repr

/-- The number of octets that follow a first octet and the range of the first of them; `none` for
an octet that starts nothing. `surrogates` tells whether surrogates pass. -/
def follow? (surrogates : Bool) (b : UInt8) : Option (Nat × UInt8 × UInt8) :=
  if b < 0x80 then some (0, 0x80, 0xBF)
  else if b < 0xC2 then none
  else if b < 0xE0 then some (1, 0x80, 0xBF)
  else if b = 0xE0 then some (2, 0xA0, 0xBF)
  else if b = 0xED then some (2, 0x80, if surrogates then 0xBF else 0x9F)
  else if b < 0xF0 then some (2, 0x80, 0xBF)
  else if b = 0xF0 then some (3, 0x90, 0xBF)
  else if b < 0xF4 then some (3, 0x80, 0xBF)
  else if b = 0xF4 then some (3, 0x80, 0x8F)
  else none

/-- Takes up to `count` continuation octets, the first of them from `lo` to `hi`: the values taken
and what follows. -/
def continuation : Nat → UInt8 → UInt8 → List UInt8 → List Nat × List UInt8
  | 0, _, _, rest => ([], rest)
  | _, _, _, [] => ([], [])
  | count + 1, lo, hi, b :: rest =>
    if lo ≤ b && b ≤ hi then
      let (taken, rest') := continuation count 0x80 0xBF rest
      ((b.toNat - 0x80) :: taken, rest')
    else ([], b :: rest)

/-- The payload of a first octet that `count` others follow. -/
def payload (b : UInt8) (count : Nat) : Nat :=
  match count with
  | 0 => b.toNat
  | 1 => b.toNat - 0xC0
  | 2 => b.toNat - 0xE0
  | _ => b.toNat - 0xF0

/-- Decodes the octets from `position` on; the fuel is their number. -/
def decodeFrom (surrogates : Bool) : Nat → Nat → List UInt8 → Except Error (List Char)
  | _, _, [] => .ok []
  | 0, _, _ => .ok []
  | fuel + 1, position, b :: rest =>
    match follow? surrogates b with
    | none => .error ⟨.startByte, position, 1, b⟩
    | some (count, lo, hi) =>
      let (taken, rest') := continuation count lo hi rest
      if taken.length = count then do
        let code := taken.foldl (fun acc v => acc * 64 + v) (payload b count)
        return charOfCode code :: (← decodeFrom surrogates fuel (position + 1 + count) rest')
      else
        let fault := if rest'.isEmpty then Fault.endOfData else .continuationByte
        .error ⟨fault, position, 1 + taken.length, b⟩

/-- Decodes UTF-8. -/
def decode (bytes : List UInt8) : Except Error String :=
  (decodeFrom false bytes.length 0 bytes).map String.ofList

/-- Decodes UTF-8 in which surrogates pass. -/
def decodeLoose (bytes : List UInt8) : Except Error String :=
  (decodeFrom true bytes.length 0 bytes).map String.ofList

end Utf8

/-! ## Wider forms -/

/-- Order of the octets in a unit. -/
inductive ByteOrder where
  | big
  | little
  deriving DecidableEq, Repr

/-- Units of two octets; `none` if an octet is left over. -/
def units16 (order : ByteOrder) : List UInt8 → Option (List Nat)
  | [] => some []
  | a :: b :: rest =>
    let unit := match order with
      | .big => a.toNat * 256 + b.toNat
      | .little => b.toNat * 256 + a.toNat
    (units16 order rest).map (unit :: ·)
  | _ => none

/-- Units of four octets; `none` if some are left over. -/
def units32 (order : ByteOrder) : List UInt8 → Option (List Nat)
  | [] => some []
  | a :: b :: c :: d :: rest =>
    let unit := match order with
      | .big => ((a.toNat * 256 + b.toNat) * 256 + c.toNat) * 256 + d.toNat
      | .little => ((d.toNat * 256 + c.toNat) * 256 + b.toNat) * 256 + a.toNat
    (units32 order rest).map (unit :: ·)
  | _ => none

/-- Characters of UTF-16 units: two surrogates that fit make one character. -/
def charsOfUnits16 : List Nat → List Char
  | [] => []
  | [u] => [charOfCode u]
  | u :: v :: rest =>
    if 0xD800 ≤ u && u ≤ 0xDBFF && 0xDC00 ≤ v && v ≤ 0xDFFF then
      Char.ofNat (0x10000 + (u - 0xD800) * 0x400 + (v - 0xDC00)) :: charsOfUnits16 rest
    else charOfCode u :: charsOfUnits16 (v :: rest)

def decode16 (order : ByteOrder) (bytes : List UInt8) : Option String :=
  (units16 order bytes).map fun units => String.ofList (charsOfUnits16 units)

def decode32 (order : ByteOrder) (bytes : List UInt8) : Option String := do
  let units ← units32 order bytes
  if units.all (· ≤ 0x10FFFF) then some (String.ofList (units.map charOfCode)) else none

end VideoExport.Text
