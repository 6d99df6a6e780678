/-!
# Cursor — a place in a YAML text

Indentation carries meaning in YAML, so a place is more than the characters that follow it: it has a
line and a column.  Line breaks are made uniform before anything else is looked at; only the line
and paragraph separators keep their own form.
-/

namespace TextScore.Yaml

def isPrintable (c : Char) : Bool :=
  let n := c.toNat
  n == 0x09 || n == 0x0A || n == 0x0D || (0x20 ≤ n && n ≤ 0x7E) || n == 0x85
    || (0xA0 ≤ n && n ≤ 0xD7FF) || (0xE000 ≤ n && n ≤ 0xFFFD) || 0x10000 ≤ n

/-- Carriage returns, with or without a line feed, and next-line characters become line feeds. -/
def uniformBreaks : List Char → List Char
  | [] => []
  | '\r' :: '\n' :: rest => '\n' :: uniformBreaks rest
  | '\r' :: rest => '\n' :: uniformBreaks rest
  | '\x85' :: rest => '\n' :: uniformBreaks rest
  | c :: rest => c :: uniformBreaks rest

def isBreak (c : Char) : Bool :=
  c == '\n' || c == '\u2028' || c == '\u2029'

def isSpace (c : Char) : Bool :=
  c == ' ' || c == '\t'

def isGap (c : Char) : Bool :=
  isSpace c || isBreak c

/-- The text is at its end, or at a blank or a line break. -/
def atGap (cs : List Char) : Bool :=
  match cs with
  | [] => true
  | c :: _ => isGap c

def atBreak (cs : List Char) : Bool :=
  match cs with
  | [] => true
  | c :: _ => isBreak c

def isWord (c : Char) : Bool :=
  c.isAlphanum || c == '_' || c == '-'

structure Cursor where
  rest : List Char
  line : Nat
  /-- The characters before it on its line. -/
  column : Nat
  /-- The octets before it, each character written in UTF-8. -/
  index : Nat
  deriving Repr

namespace Cursor

def start (cs : List Char) : Cursor := ⟨cs, 0, 0, 0⟩

def next (k : Cursor) : Cursor :=
  match k.rest with
  | [] => k
  | c :: rest =>
    if isBreak c then ⟨rest, k.line + 1, 0, k.index + c.utf8Size⟩
    else ⟨rest, k.line, k.column + 1, k.index + c.utf8Size⟩

def skip (k : Cursor) : Nat → Cursor
  | 0 => k
  | n + 1 => k.next.skip n

def takeWhile (k : Cursor) (p : Char → Bool) : List Char × Cursor :=
  let taken := k.rest.takeWhile p
  (taken, k.skip taken.length)

def sees (k : Cursor) (c : Char) : Bool :=
  k.rest.head? == some c

/-- The three characters that start or end a document, at the beginning of a line. -/
def atMarker (k : Cursor) (c : Char) : Bool :=
  k.column == 0 && [c, c, c].isPrefixOf k.rest && atGap (k.rest.drop 3)

def atDocumentMarker (k : Cursor) : Bool :=
  k.atMarker '-' || k.atMarker '.'

def skipToBreak (k : Cursor) : Cursor :=
  let k := (k.takeWhile isSpace).2
  if k.sees '#' then (k.takeWhile fun c => !isBreak c).2 else k

end Cursor

end TextScore.Yaml
