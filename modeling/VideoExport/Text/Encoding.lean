import VideoExport.Text.Utf8

/-!
# Encodings of text files

How the octets of a text file stand for characters. `Encoding.ofName?` knows an encoding by its
names, whatever case and punctuation they are written with, and `Encoding.decode` tells which octet
stands for nothing.
-/

set_option autoImplicit false

namespace VideoExport.Text

/-- An encoding of text files. -/
inductive Encoding where
  | utf8
  /-- UTF-8 with a byte order mark, which is no part of the text. -/
  | utf8Marked
  | ascii
  | latin1
  | windows1252
  deriving DecidableEq, Repr

/-- Why octets are no text. -/
inductive DecodeError where
  | utf8 (e : Utf8.Error)
  /-- An octet beyond ASCII at a position. -/
  | beyondAscii (position : Nat) (octet : UInt8)
  /-- An octet that stands for no character, at a position. -/
  | unassigned (position : Nat) (octet : UInt8)
  deriving DecidableEq, Repr

namespace Encoding

/-- A name in lower case, with one underscore for each run of punctuation inside it. -/
def plainName (name : String) : String :=
  let isPart (c : Char) : Bool := c.isAlphanum || c = '.'
  let words := (name.toList.splitBy fun a b => isPart a == isPart b).filter (·.all isPart)
  "_".intercalate (words.map fun w => String.ofList (w.map Char.toLower))

/-- The plain names of an encoding. -/
def names : Encoding → List String
  | .utf8 => ["utf_8", "u8", "utf", "utf8", "utf8_ucs2", "utf8_ucs4", "cp65001"]
  | .utf8Marked => ["utf_8_sig"]
  | .ascii => [
    "ascii", "646", "ansi_x3.4_1968", "ansi_x3_4_1968", "ansi_x3.4_1986", "cp367", "csascii",
    "ibm367", "iso646_us", "iso_646.irv_1991", "iso_ir_6", "us", "us_ascii"]
  | .latin1 => [
    "latin_1", "8859", "cp819", "csisolatin1", "ibm819", "iso8859", "iso8859_1", "iso_8859_1",
    "iso_8859_1_1987", "iso_ir_100", "l1", "latin", "latin1"]
  | .windows1252 => ["cp1252", "1252", "windows_1252"]

/-- The encoding of a name. -/
def ofName? (name : String) : Option Encoding :=
  [utf8, utf8Marked, ascii, latin1, windows1252].find? fun e => e.names.contains (plainName name)

/-- The code points of the octets from `0x80` on that Windows 1252 assigns anew; zero where it
assigns none. -/
def windowsCodes : List Nat := [
  0x20AC, 0, 0x201A, 0x0192, 0x201E, 0x2026, 0x2020, 0x2021, 0x02C6, 0x2030, 0x0160, 0x2039, 0x0152,
  0, 0x017D, 0, 0, 0x2018, 0x2019, 0x201C, 0x201D, 0x2022, 0x2013, 0x2014, 0x02DC, 0x2122, 0x0161,
  0x203A, 0x0153, 0, 0x017E, 0x0178]

/-- The character that an octet stands for by itself. -/
def char? (e : Encoding) (octet : UInt8) : Option Char :=
  let code := octet.toNat
  match e with
  | .windows1252 =>
    let assigned := if code < 0x80 then code else windowsCodes[code - 0x80]?.getD code
    if assigned = 0 && code ≠ 0 then none else some (Char.ofNat assigned)
  | .latin1 => some (Char.ofNat code)
  | _ => if code < 0x80 then some (Char.ofNat code) else none

/-- Decodes octets that stand for a character each, the first of them at a position. -/
def decodeEach (e : Encoding) (fault : Nat → UInt8 → DecodeError) :
    Nat → List UInt8 → Except DecodeError (List Char)
  | _, [] => .ok []
  | position, octet :: rest =>
    match e.char? octet with
    | some c => (decodeEach e fault (position + 1) rest).map (c :: ·)
    | none => .error (fault position octet)

/-- The octets after a byte order mark. -/
def afterMark : List UInt8 → List UInt8
  | 0xEF :: 0xBB :: 0xBF :: rest => rest
  | bytes => bytes

/-- Decodes the octets of a text. -/
def decode (e : Encoding) (bytes : List UInt8) : Except DecodeError String :=
  match e with
  | .utf8 => (Utf8.decode bytes).mapError .utf8
  | .utf8Marked => (Utf8.decode (afterMark bytes)).mapError .utf8
  | .windows1252 => (decodeEach e .unassigned 0 bytes).map String.ofList
  | .ascii | .latin1 => (decodeEach e .beyondAscii 0 bytes).map String.ofList

end Encoding

end VideoExport.Text
