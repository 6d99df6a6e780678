/-!
# Text — blanks, trimming and source lines

The characters that separate tokens are the twenty-five that have the Unicode property
`White_Space`.  `trim` removes them from both ends of a text, and a text of nothing else is
blank.

A text is cut at its line feeds, and one carriage return at the end of a line belongs to the
line break.  Lines are numbered from 1; the lines that hold nothing but blanks keep their number
and carry no content.
-/

namespace TextScore.Text

/-! ## 1. Blanks -/

/-- The characters with the Unicode property `White_Space`. -/
def isBlank (c : Char) : Bool :=
  let n := c.toNat
  (9 ≤ n && n ≤ 13) || n == 0x20 || n == 0x85 || n == 0xA0 || n == 0x1680
    || (0x2000 ≤ n && n ≤ 0x200A) || n == 0x2028 || n == 0x2029 || n == 0x202F
    || n == 0x205F || n == 0x3000

/-- A text that holds no visible character. -/
def allBlank (cs : List Char) : Bool :=
  cs.all isBlank

def trimLeft (cs : List Char) : List Char :=
  cs.dropWhile isBlank

def trimRight (cs : List Char) : List Char :=
  (cs.reverse.dropWhile isBlank).reverse

/-- Blanks at either end are dropped; those between visible characters stay. -/
def trim (cs : List Char) : List Char :=
  trimRight (trimLeft cs)

def trimString (s : String) : String :=
  String.ofList (trim s.toList)

/-! ## 2. Lines -/

/-- A line of a text, without its line break, and its place counted from 1. -/
structure SourceLine where
  number : Nat
  chars : List Char
  deriving DecidableEq, Repr

/-- The line without the carriage return of its line break. -/
def dropCarriageReturn (line : List Char) : List Char :=
  if line.getLast? = some '\r' then line.dropLast else line

/-- The lines of a text; a text has one more line than it has line feeds. -/
def lines (text : List Char) : List (List Char) :=
  (text.splitOn '\n').map dropCarriageReturn

def numberFrom (first : Nat) : List (List Char) → List SourceLine
  | [] => []
  | line :: rest => ⟨first, line⟩ :: numberFrom (first + 1) rest

/-- The lines that are not blank, with their numbers in the whole text. -/
def contentLines (text : List Char) : List SourceLine :=
  (numberFrom 1 (lines text)).filter fun line => !allBlank line.chars

end TextScore.Text
