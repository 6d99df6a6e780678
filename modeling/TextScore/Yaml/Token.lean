import TextScore.Yaml.Scalar

/-!
# Token — the marks and scalars of a YAML text

Indentation is turned into tokens that open and close block collections.  Whether a scalar is a key
shows only at the colon behind it; until then its place is remembered, and the tokens of the key are
put in front of it afterwards.
-/

namespace TextScore.Yaml

inductive Token where
  | version (major minor : Nat)
  | tagDirective (handle tagStart : List Char)
  | documentStart
  | documentEnd
  | blockSequenceStart
  | blockMappingStart
  | blockEnd
  | flowSequenceStart
  | flowSequenceEnd
  | flowMappingStart
  | flowMappingEnd
  | blockEntry
  | flowEntry
  | key
  | value
  | alias (name : List Char)
  | anchor (name : List Char)
  | tag (handle suffix : List Char)
  | scalar (text : List Char) (style : ScalarStyle)
  deriving DecidableEq, Repr

structure KeyPlace where
  /-- The number of tokens before it. -/
  tokenIndex : Nat
  cursor : Cursor
  /-- A token at the indentation of a block mapping must be a key. -/
  required : Bool

structure Scanner where
  cursor : Cursor
  tokens : Array Token
  /-- The columns of the open block collections, innermost first. -/
  indents : List Nat
  /-- The possible keys of the open flow collections and of the block around them, innermost
  first. -/
  keys : List (Option KeyPlace)
  /-- A key may start here. -/
  keyAllowed : Bool

namespace Scanner

def start (cs : List Char) : Scanner := ⟨.start cs, #[], [], [none], true⟩

def inFlow (s : Scanner) : Bool :=
  1 < s.keys.length

/-- The column below which the innermost block collection ends. -/
def indent? (s : Scanner) : Option Nat :=
  s.indents.head?

def emit (s : Scanner) (token : Token) : Scanner :=
  { s with tokens := s.tokens.push token }

/-! ## 1. Blocks and keys -/

/-- Closes the block collections that are indented deeper than a column; without one, all. -/
def closeBlocks (s : Scanner) (column : Option Nat) : Scanner :=
  if s.inFlow then s
  else
    let closed := s.indents.takeWhile fun indent => column.all (· < indent)
    { s with
      indents := s.indents.drop closed.length
      tokens := closed.foldl (fun tokens _ => tokens.push .blockEnd) s.tokens }

/-- Opens a block collection in front of the token with this number, if its column lies deeper. -/
def openBlock (s : Scanner) (column tokenIndex : Nat) (token : Token) : Scanner :=
  if s.inFlow then s
  else if s.indent?.all (· < column) then
    { s with
      indents := column :: s.indents
      tokens := s.tokens.insertIdxIfInBounds tokenIndex token }
  else s

def dropKey? (s : Scanner) : Option Scanner :=
  match s.keys with
  | some place :: rest => if place.required then none else some { s with keys := none :: rest }
  | _ => some s

def saveKey? (s : Scanner) : Option Scanner :=
  if s.keyAllowed then
    let required := !s.inFlow && s.indent? == some s.cursor.column
    s.dropKey?.map fun s =>
      { s with keys := some ⟨s.tokens.size, s.cursor, required⟩ :: s.keys.drop 1 }
  else some s

/-- A key stands on one line and within 1024 octets. -/
def isStale (k : Cursor) (place : KeyPlace) : Bool :=
  place.cursor.line < k.line || place.cursor.index + 1024 < k.index

def dropStaleKeys? (s : Scanner) : Option Scanner :=
  let stale (place : Option KeyPlace) : Bool := place.any (isStale s.cursor)
  if s.keys.any fun place => stale place && place.any (·.required) then none
  else some { s with keys := s.keys.map fun place => if stale place then none else place }

/-! ## 2. Between tokens -/

/-- Over blanks, comments and line breaks.  Tabs may not stand where a key may start. -/
def toNextToken (fuel : Nat) (s : Scanner) : Scanner :=
  match fuel with
  | 0 => s
  | fuel + 1 =>
    let k := s.cursor
    let k := if k.column == 0 && k.sees '\ufeff' then k.next else k
    let tabs := s.inFlow || !s.keyAllowed
    let k := (k.takeWhile fun c => c == ' ' || (tabs && c == '\t')).2
    let k := if k.sees '#' then (k.takeWhile fun c => !isBreak c).2 else k
    if k.rest.head?.any isBreak then
      toNextToken fuel { s with cursor := k.next, keyAllowed := s.keyAllowed || !s.inFlow }
    else { s with cursor := k }

/-! ## 3. Directives, anchors and tags -/

def scanNumber? (k : Cursor) : Option (Nat × Cursor) :=
  let (digits, k) := k.takeWhile Char.isDigit
  if digits.isEmpty || 9 < digits.length then none else some (Nat.ofDigitChars 10 digits 0, k)

def isUriChar (c : Char) : Bool :=
  isWord c || ";/?:@&=+$.%!~*'()".toList.contains c

def octetCount? (lead : Nat) : Option Nat :=
  if lead < 0x80 then some 1
  else if 0xC0 ≤ lead ∧ lead < 0xE0 then some 2
  else if 0xE0 ≤ lead ∧ lead < 0xF0 then some 3
  else if 0xF0 ≤ lead ∧ lead < 0xF8 then some 4
  else none

/-- The octets that are still to come once this one has been read; `due` of them were to come
before. -/
def octetsDue? (due octet : Nat) : Option Nat :=
  match due with
  | 0 => (octetCount? octet).map (· - 1)
  | due + 1 => if 0x80 ≤ octet ∧ octet < 0xC0 then some due else none

/-- The octets of a tag.  A percent sign and two hexadecimal digits stand for one, and the octets
of one character are all written in this way or none is. -/
def decodeUri? (due : Nat) : List Char → Option (List Char)
  | [] => if due = 0 then some [] else none
  | '%' :: a :: b :: rest =>
    (hexDigit? a).bind fun high => (hexDigit? b).bind fun low =>
      let octet := high * 16 + low
      (octetsDue? due octet).bind fun due => (decodeUri? due rest).map (Char.ofNat octet :: ·)
  | '%' :: _ => none
  | c :: rest => if due = 0 then (decodeUri? 0 rest).map (c :: ·) else none

/-- The text of a tag as far as it counts, which is to its first octet of zero. -/
def uriText? (uri : List Char) : Option (List Char) :=
  (decodeUri? 0 uri).map (List.takeWhile (· != '\x00'))

/-- Characters of a tag; commas and brackets only where no flow collection could end at them. -/
def takeUri (k : Cursor) (brackets : Bool) : List Char × Cursor :=
  k.takeWhile fun c => isUriChar c || (brackets && (c == ',' || c == '[' || c == ']'))

def scanUri? (k : Cursor) (brackets : Bool) : Option (List Char × Cursor) :=
  let (uri, k) := takeUri k brackets
  if uri.isEmpty then none else (uriText? uri).map fun text => (text, k)

/-- An exclamation mark, letters, and perhaps a second mark. -/
def scanHandle? (k : Cursor) : Option (List Char × Cursor) :=
  if k.sees '!' then
    let (word, k) := k.next.takeWhile isWord
    if k.sees '!' then some ('!' :: word ++ ['!'], k.next) else some ('!' :: word, k)
  else none

def scanVersion? (k : Cursor) : Option (Token × Cursor) :=
  (scanNumber? (k.takeWhile isSpace).2).bind fun (major, k) =>
    if k.sees '.' then (scanNumber? k.next).map fun (minor, k) => (.version major minor, k)
    else none

def scanTagDirective? (k : Cursor) : Option (Token × Cursor) :=
  (scanHandle? (k.takeWhile isSpace).2).bind fun (handle, k) =>
    if (handle == ['!'] || (2 ≤ handle.length && handle.getLast? == some '!'))
        && k.rest.head?.any isSpace then
      (scanUri? (k.takeWhile isSpace).2 true).bind fun (uri, k) =>
        if atGap k.rest then some (.tagDirective handle uri, k) else none
    else none

def scanDirective? (k : Cursor) : Option (Token × Cursor) :=
  let (name, k) := k.takeWhile isWord
  let scanned :=
    if !atGap k.rest then none
    else if name = "YAML".toList then scanVersion? k
    else if name = "TAG".toList then scanTagDirective? k
    else none
  scanned.bind fun (token, k) =>
    let k := k.skipToBreak
    if atBreak k.rest then some (token, k.next) else none

def scanName? (k : Cursor) : Option (List Char × Cursor) :=
  let (name, k) := k.takeWhile isWord
  let ended := match k.rest with
    | [] => true
    | c :: _ => isGap c || "?:,]\x7d%@`".toList.contains c
  if !name.isEmpty && ended then some (name, k) else none

/-- A tag: a whole one in angle brackets, or a suffix behind a handle. -/
def scanTag? (inFlow : Bool) (k : Cursor) : Option (Token × Cursor) :=
  let scanned :=
    if k.next.sees '<' then
      (scanUri? (k.skip 2) true).bind fun (uri, k) =>
        if k.sees '>' then some (Token.tag [] uri, k.next) else none
    else
      (scanHandle? k).bind fun (handle, after) =>
        if 2 ≤ handle.length && handle.getLast? == some '!' then
          (scanUri? after false).map fun (uri, k) => (Token.tag handle uri, k)
        else
          let (uri, k) := takeUri k.next false
          (uriText? uri).map fun suffix =>
            if suffix.isEmpty then (Token.tag [] ['!'], k) else (Token.tag ['!'] suffix, k)
  scanned.filter fun (_, k) => atGap k.rest || (inFlow && k.sees ',')

/-! ## 4. One token -/

def openFlow? (s : Scanner) (token : Token) : Option Scanner :=
  s.saveKey?.map fun s =>
    { s.emit token with keys := none :: s.keys, keyAllowed := true, cursor := s.cursor.next }

def closeFlow? (s : Scanner) (token : Token) : Option Scanner :=
  s.dropKey?.map fun s =>
    { s.emit token with
      keys := if s.inFlow then s.keys.drop 1 else s.keys
      keyAllowed := false
      cursor := s.cursor.next }

def blockMark? (s : Scanner) (opening token : Token) (keyAllowed : Bool) : Option Scanner :=
  if !s.inFlow && !s.keyAllowed then none
  else (s.openBlock s.cursor.column s.tokens.size opening).dropKey?.map fun s =>
    { s.emit token with keyAllowed := keyAllowed, cursor := s.cursor.next }

/-- A colon: behind a possible key it makes it one, and else it starts a value on its own. -/
def valueMark? (s : Scanner) : Option Scanner :=
  match s.keys with
  | some place :: rest =>
    let s := { s with tokens := s.tokens.insertIdxIfInBounds place.tokenIndex .key }
    let s := s.openBlock place.cursor.column place.tokenIndex .blockMappingStart
    some { s.emit .value with
      keys := none :: rest
      keyAllowed := false
      cursor := s.cursor.next }
  | _ =>
    if !s.inFlow && !s.keyAllowed then none
    else
      let s := s.openBlock s.cursor.column s.tokens.size .blockMappingStart
      some { s.emit .value with keyAllowed := !s.inFlow, cursor := s.cursor.next }

def emitScanned? (s : Scanner) (scan : Cursor → Option (Token × Cursor)) : Option Scanner :=
  s.saveKey?.bind fun s => (scan s.cursor).map fun (token, k) =>
    { s.emit token with keyAllowed := false, cursor := k }

def emitOutside? (s : Scanner) (scan : Cursor → Option (Token × Cursor)) : Option Scanner :=
  (s.closeBlocks none).dropKey?.bind fun s => (scan s.cursor).map fun (token, k) =>
    { s.emit token with keyAllowed := false, cursor := k }

def blockScalar? (s : Scanner) (style : ScalarStyle) : Option Scanner :=
  s.dropKey?.bind fun s =>
    (scanBlock? (2 * s.cursor.rest.length + 2) style s.indent? s.cursor.next).map fun (text, k) =>
      { s.emit (.scalar text style) with keyAllowed := true, cursor := k }

def plainScalar? (s : Scanner) : Option Scanner :=
  s.saveKey?.bind fun s =>
    let indent := match s.indent? with
      | some n => n + 1
      | none => 0
    (scanPlain? (s.cursor.rest.length + 1) s.inFlow indent [] [] s.cursor).map fun scanned =>
      { s.emit (.scalar scanned.text .plain) with
        keyAllowed := scanned.endsLine
        cursor := scanned.cursor }

def isIndicator (c : Char) : Bool :=
  "-?:,[]\x7b\x7d#&*!|>'\"%@`".toList.contains c

def startsPlain (inFlow : Bool) (c : Char) (rest : List Char) : Bool :=
  (!isGap c && !isIndicator c)
    || (c == '-' && !rest.head?.any isSpace)
    || (!inFlow && (c == '?' || c == ':') && !atGap rest)

def token? (s : Scanner) (c : Char) (rest : List Char) : Option Scanner :=
  let k := s.cursor
  if k.column == 0 && c == '%' then s.emitOutside? fun k => scanDirective? k.next
  else if k.atMarker '-' then s.emitOutside? fun k => some (.documentStart, k.skip 3)
  else if k.atMarker '.' then s.emitOutside? fun k => some (.documentEnd, k.skip 3)
  else if c == '[' then s.openFlow? .flowSequenceStart
  else if c == '{' then s.openFlow? .flowMappingStart
  else if c == ']' then s.closeFlow? .flowSequenceEnd
  else if c == '}' then s.closeFlow? .flowMappingEnd
  else if c == ',' then
    s.dropKey?.map fun s =>
      { s.emit .flowEntry with keyAllowed := true, cursor := s.cursor.next }
  else if c == '-' && atGap rest then s.blockMark? .blockSequenceStart .blockEntry true
  else if c == '?' && (s.inFlow || atGap rest) then
    s.blockMark? .blockMappingStart .key !s.inFlow
  else if c == ':' && (s.inFlow || atGap rest) then s.valueMark?
  else if c == '*' then
    s.emitScanned? fun k => (scanName? k.next).map fun (name, k) => (.alias name, k)
  else if c == '&' then
    s.emitScanned? fun k => (scanName? k.next).map fun (name, k) => (.anchor name, k)
  else if c == '!' then s.emitScanned? (scanTag? s.inFlow)
  else if c == '|' && !s.inFlow then s.blockScalar? .literal
  else if c == '>' && !s.inFlow then s.blockScalar? .folded
  else if c == '\'' || c == '"' then
    s.emitScanned? fun k =>
      (scanQuoted? (k.rest.length + 1) c [] k.next).map fun (text, k) => (.scalar text .quoted, k)
  else if startsPlain s.inFlow c rest then s.plainScalar?
  else none

/-- All tokens from the cursor on; every token takes a character, so `fuel` need not exceed their
number. -/
def run? (fuel : Nat) (s : Scanner) : Option (List Token) :=
  match fuel with
  | 0 => none
  | fuel + 1 =>
    (s.toNextToken (s.cursor.rest.length + 1)).dropStaleKeys?.bind fun s =>
      match s.cursor.rest with
      | [] => (s.closeBlocks none).dropKey?.map fun s => s.tokens.toList
      | c :: rest => ((s.closeBlocks (some s.cursor.column)).token? c rest).bind (run? fuel)

end Scanner

def tokens? (cs : List Char) : Option (List Token) :=
  if cs.all isPrintable then
    let cs := uniformBreaks cs
    (Scanner.start cs).run? (cs.length + 1)
  else none

end TextScore.Yaml
