import VideoExport.Numeric.Number

/-!
# Instants

A point in time, in microseconds, and its date in the Gregorian calendar. All dates are in universal
time.
-/

set_option autoImplicit false

namespace VideoExport

/-- Microseconds since the start of 1970. -/
structure Instant where
  microseconds : Int
  deriving DecidableEq, Repr, Inhabited

/-- A date. -/
structure Date where
  year : Int
  month : Nat
  day : Nat
  deriving DecidableEq, Repr

namespace Date

/-- Days from the start of 1970 to a date. The year is counted from March, so that a leap day is the
last of its year, and a cycle has four hundred years. -/
def dayNumber (d : Date) : Int :=
  let year := if d.month ≤ 2 then d.year - 1 else d.year
  let cycle := year / 400
  let yearOfCycle := year % 400
  let month : Int := (d.month + 9) % 12
  let dayOfYear := (153 * month + 2) / 5 + (d.day : Int) - 1
  cycle * 146097 + (yearOfCycle * 365 + yearOfCycle / 4 - yearOfCycle / 100 + dayOfYear) - 719468

/-- The date of a day number. -/
def ofDayNumber (n : Int) : Date :=
  let shifted := n + 719468
  let cycle := shifted / 146097
  let day := shifted % 146097
  let yearOfCycle := (day - day / 1460 + day / 36524 - day / 146096) / 365
  let dayOfYear := day - (365 * yearOfCycle + yearOfCycle / 4 - yearOfCycle / 100)
  let month := (5 * dayOfYear + 2) / 153
  let monthNumber := if month < 10 then month + 3 else month - 9
  let year := yearOfCycle + cycle * 400 + (if monthNumber ≤ 2 then 1 else 0)
  ⟨year, monthNumber.toNat, (dayOfYear - (153 * month + 2) / 5 + 1).toNat⟩

end Date

/-- Decimal digits of `n`, with zeros in front up to a width. -/
def paddedDigits (width n : Nat) : String :=
  let digits := Binary64.digitText n
  Binary64.zeros (width - digits.length) ++ digits

namespace Instant

/-- Microseconds in a day. -/
def day : Int := 86400000000

/-- The number that decimal digits write. -/
def digitsValue (s : List Char) : Nat := s.foldl (fun n c => 10 * n + (c.toNat - '0'.toNat)) 0

/-- Up to `n` numbers of two digits, which colons may separate, and what follows them. -/
def readPairs : Nat → List Char → List Int × List Char
  | 0, s => ([], s)
  | n + 1, s =>
    match (if s.head? = some ':' then s.drop 1 else s) with
    | a :: b :: rest =>
      if a.isDigit && b.isDigit then
        let (more, rest) := readPairs n rest
        (digitsValue [a, b] :: more, rest)
      else ([], s)
    | _ => ([], s)

/-- Reads hours, minutes and seconds with a fraction, in microseconds, and what follows them. -/
def readClock (s : List Char) : Int × List Char :=
  let (numbers, rest) := readPairs 3 s
  let part (i : Nat) : Int := numbers[i]?.getD 0
  let (fraction, rest) := match rest with
    | [] => ([], [])
    | c :: more =>
      if c = '.' || c = ',' then (more.takeWhile Char.isDigit, more.dropWhile Char.isDigit)
      else ([], rest)
  let time := part 0 * 3600 + part 1 * 60 + part 2
  (time * 1000000 + digitsValue ((fraction ++ List.replicate 6 '0').take 6), rest)

/-- Reads the distance from universal time, in microseconds. -/
def readOffset : List Char → Int
  | '-' :: rest => -(readClock rest).1
  | _ :: rest => (readClock rest).1
  | [] => 0

/-- Reads a date, the time of day after one mark, and the distance from universal time. Marks
between the parts of date and time may be left out. -/
def ofIso (s : String) : Instant :=
  let number (s : List Char) (count : Nat) : Nat × List Char :=
    let s := if s.head? = some '-' then s.drop 1 else s
    (digitsValue (s.take count), s.drop count)
  let (year, rest) := number s.toList 4
  let (month, rest) := number rest 2
  let (day, rest) := number rest 2
  let date : Date := ⟨year, month, day⟩
  let (time, rest) := readClock (rest.drop 1)
  ⟨date.dayNumber * Instant.day + time - readOffset rest⟩

/-- The date of an instant. -/
def date (t : Instant) : Date := .ofDayNumber (t.microseconds / day)

/-- Microseconds since midnight. -/
def sinceMidnight (t : Instant) : Nat := (t.microseconds % day).toNat

/-- Date and time to the second, with a mark between them. -/
def seconds (t : Instant) (mark : String) : String :=
  let s := t.sinceMidnight / 1000000
  let d := t.date
  s!"{paddedDigits 4 d.year.toNat}-{paddedDigits 2 d.month}-{paddedDigits 2 d.day}"
    ++ s!"{mark}{paddedDigits 2 (s / 3600)}:{paddedDigits 2 (s / 60 % 60)}:{paddedDigits 2 (s % 60)}"

/-- Milliseconds of the second, cut off. -/
def milliseconds (t : Instant) : Nat := t.sinceMidnight / 1000 % 1000

/-- Whether the calendar has the date of an instant: its years are those from 1 to 9999. -/
def isDated (t : Instant) : Bool := 1 ≤ t.date.year && t.date.year ≤ 9999

/-- The time as it is written into metadata: to the millisecond. -/
def iso (t : Instant) : String := t.seconds "T" ++ s!".{paddedDigits 3 t.milliseconds}Z"

/-- The time as it is written before a record of a log file. -/
def stamp (t : Instant) : String := t.seconds " " ++ s!",{paddedDigits 3 t.milliseconds}"

end Instant

end VideoExport
