import TextScore.Calendar.Date
import TextScore.Decimal.Numeral
import TextScore.Text

/-!
# Timestamp — instants and their written form

An instant is a number of seconds from the epoch and a fraction in nanoseconds.  A fraction of a
whole second or more marks a leap second, which belongs to the second before it.

Instants are written in the form of RFC 3339, in universal time, with as many groups of three
fraction digits as are needed.  They are read in a looser form: parts may have fewer digits, blanks
may stand before them, and any offset to universal time is taken off.
-/

namespace TextScore.Calendar

open TextScore.Text TextScore.Decimal

structure Timestamp where
  seconds : Int
  nanos : Nat
  deriving DecidableEq, Repr

namespace Timestamp

/-- The order of time; a leap second comes behind the second it belongs to. -/
def isBefore (a b : Timestamp) : Bool :=
  a.seconds < b.seconds || (a.seconds = b.seconds && a.nanos < b.nanos)

def secondsPerDay : Int := 86400

/-! ## 1. Writing -/

def padded (width n : Nat) : List Char :=
  let digits := Nat.toDigits 10 n
  List.replicate (width - digits.length) '0' ++ digits

/-- Years outside four digits carry a sign. -/
def yearChars (year : Int) : List Char :=
  if 0 ≤ year ∧ year ≤ 9999 then padded 4 year.natAbs
  else (if year < 0 then '-' else '+') :: padded 4 year.natAbs

/-- No fraction, or three, six or nine digits. -/
def fractionChars (nanos : Nat) : List Char :=
  if nanos = 0 then []
  else if nanos % 1000000 = 0 then '.' :: padded 3 (nanos / 1000000)
  else if nanos % 1000 = 0 then '.' :: padded 6 (nanos / 1000)
  else '.' :: padded 9 nanos

def chars (t : Timestamp) : List Char :=
  let date := Date.ofDays (t.seconds / secondsPerDay)
  let second := (t.seconds % secondsPerDay).toNat
  yearChars date.year ++ '-' :: padded 2 date.month ++ '-' :: padded 2 date.day
    ++ 'T' :: padded 2 (second / 3600) ++ ':' :: padded 2 (second / 60 % 60)
    ++ ':' :: padded 2 (second % 60 + t.nanos / 1000000000)
    ++ fractionChars (t.nanos % 1000000000) ++ ['Z']

def toString (t : Timestamp) : String :=
  String.ofList t.chars

/-! ## 2. Reading -/

/-- One to `width` digits behind any blanks. -/
def readNumber? (width : Nat) (cs : List Char) : Option (Nat × List Char) :=
  let rest := trimLeft cs
  let digits := (rest.takeWhile Char.isDigit).take width
  if digits.isEmpty then none
  else some (Nat.ofDigitChars 10 digits 0, rest.drop digits.length)

/-- A year of at most four digits, or of any length behind a sign. -/
def readYear? (cs : List Char) : Option (Int × List Char) :=
  let signed (rest : List Char) : Option (Nat × List Char) :=
    let (digits, behind) := takeDigits rest
    if digits.isEmpty then none else some (Nat.ofDigitChars 10 digits 0, behind)
  match trimLeft cs with
  | '-' :: rest => (signed rest).map fun (n, rest) => (-(n : Int), rest)
  | '+' :: rest => (signed rest).map fun (n, rest) => ((n : Int), rest)
  | rest => (readNumber? 4 rest).map fun (n, rest) => ((n : Int), rest)

def readMark? (mark : Char) (cs : List Char) : Option (List Char) :=
  match trimLeft cs with
  | c :: rest => if c = mark then some rest else none
  | [] => none

/-- The fraction of a second in nanoseconds; digits behind the ninth are passed over. -/
def readFraction? (cs : List Char) : Option (Nat × List Char) :=
  match cs with
  | '.' :: rest =>
    let (digits, rest) := takeDigits rest
    let nine := (digits ++ List.replicate 9 '0').take 9
    if digits.isEmpty then none else some (Nat.ofDigitChars 10 nine 0, rest)
  | _ => some (0, cs)

/-- The offset to universal time in seconds: `Z`, `UTC`, or hours and minutes behind a sign. -/
def readOffset? (cs : List Char) : Option (Int × List Char) :=
  let hoursAndMinutes (sign : Int) : List Char → Option (Int × List Char)
    | a :: b :: rest =>
      match rest.dropWhile fun c => c = ':' || isBlank c with
      | c :: d :: rest =>
        if a.isDigit ∧ b.isDigit ∧ c.isDigit ∧ d.isDigit ∧ c ≤ '5' then
          let hours : Int := Nat.ofDigitChars 10 [a, b] 0
          let minutes : Int := Nat.ofDigitChars 10 [c, d] 0
          some (sign * (hours * 3600 + minutes * 60), rest)
        else none
      | _ => none
    | _ => none
  match trimLeft cs with
  | '+' :: rest => hoursAndMinutes 1 rest
  | '-' :: rest | '\u2212' :: rest => hoursAndMinutes (-1) rest
  | c :: rest =>
    if c = 'Z' ∨ c = 'z' then some (0, rest)
    else if lowerCase ((c :: rest).take 3) = "utc".toList then some (0, rest.drop 2)
    else none
  | [] => none

def yearInRange (year : Int) : Bool :=
  -262143 ≤ year && year ≤ 262142

/-- An instant from its parts, if the date exists, the clock shows such a time, and the offset stays
below a day. -/
def ofParts? (date : Date) (hour minute second nanos : Nat) (offset : Int) : Option Timestamp :=
  let leap := second = 60
  let clock : Int := hour * 3600 + minute * 60 + (if leap then 59 else second)
  let total := date.toDays * secondsPerDay + clock - offset
  let fits := date.isValid && yearInRange date.year && hour < 24 && minute < 60 && second ≤ 60
    && offset.natAbs < 86400 && yearInRange (Date.ofDays (total / secondsPerDay)).year
  if fits then some ⟨total, nanos + (if leap then 1000000000 else 0)⟩ else none

def isDateEnd (c : Char) : Bool :=
  c = 'T' || c = 't' || c = ' '

/-- The date, one separating character, the time, and the offset; nothing else but blanks. -/
def ofChars? (cs : List Char) : Option Timestamp :=
  (readYear? cs).bind fun (year, rest) =>
  (readMark? '-' rest).bind fun rest =>
  (readNumber? 2 rest).bind fun (month, rest) =>
  (readMark? '-' rest).bind fun rest =>
  (readNumber? 2 rest).bind fun (day, rest) =>
  (rest.head?.filter isDateEnd).bind fun _ =>
  (readNumber? 2 rest.tail).bind fun (hour, rest) =>
  (readMark? ':' rest).bind fun rest =>
  (readNumber? 2 rest).bind fun (minute, rest) =>
  (readMark? ':' rest).bind fun rest =>
  (readNumber? 2 rest).bind fun (second, rest) =>
  (readFraction? rest).bind fun (nanos, rest) =>
  (readOffset? rest).bind fun (offset, rest) =>
  if allBlank rest then ofParts? ⟨year, month, day⟩ hour minute second nanos offset else none

def ofString? (s : String) : Option Timestamp :=
  ofChars? s.toList

end Timestamp

end TextScore.Calendar
