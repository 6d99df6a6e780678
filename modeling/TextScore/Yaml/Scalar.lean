import TextScore.Yaml.Cursor

/-!
# Scalar — texts in a YAML text

A scalar is plain, quoted, or a block of lines.  In plain and quoted scalars a line break counts as
a blank and further breaks are kept; a literal block keeps its lines as they are, and a folded block
joins those that start with a visible character.
-/

namespace TextScore.Yaml

inductive ScalarStyle where
  | plain
  | quoted
  | literal
  | folded
  deriving DecidableEq, Repr

/-- Blanks and breaks between two parts of a scalar: a single line feed is a blank, and of several
breaks the first is dropped. -/
def foldGap (gap : List Char) : List Char :=
  match gap.filter isBreak with
  | [] => gap
  | first :: later =>
    if first = '\n' then if later.isEmpty then [' '] else later else first :: later

/-! ## 1. Plain scalars -/

def isFlowEnd (c : Char) : Bool :=
  c == ',' || c == '[' || c == ']' || c == '{' || c == '}'

/-- Visible characters up to the end of a plain scalar.  A colon ends it before a gap; inside a flow
collection a colon before a bracket is refused. -/
def plainRun? (inFlow : Bool) : List Char → Option (List Char)
  | [] => some []
  | c :: rest =>
    if isGap c then some []
    else if c == ':' && atGap rest then some []
    else if inFlow && isFlowEnd c then some []
    else if inFlow && c == ':' && rest.head?.any (fun d => isFlowEnd d || d == '?') then none
    else (plainRun? inFlow rest).map (c :: ·)

/-- A tab stands left of `indent` in a line that starts within the gap. -/
def hasShallowTab (indent : Nat) (onNewLine : Bool) (column : Nat) : List Char → Bool
  | [] => false
  | c :: rest =>
    if isBreak c then hasShallowTab indent true 0 rest
    else (onNewLine && c == '\t' && column < indent) || hasShallowTab indent onNewLine (column + 1) rest

structure PlainScalar where
  text : List Char
  cursor : Cursor
  /-- The scalar is followed by a line break, so that the next token may be a key. -/
  endsLine : Bool

/-- The parts of a plain scalar, each a run of visible characters behind the gap that was read
before it; `fuel` bounds the number of parts. -/
def scanPlain? (fuel : Nat) (inFlow : Bool) (indent : Nat) (text gap : List Char) (k : Cursor) :
    Option PlainScalar :=
  let ended : PlainScalar := ⟨text, k, gap.any isBreak⟩
  match fuel with
  | 0 => none
  | fuel + 1 =>
    if k.atDocumentMarker || k.sees '#' then some ended
    else match plainRun? inFlow k.rest with
      | none => none
      | some [] => some ended
      | some (c :: run) =>
        let part := c :: run
        let text := text ++ foldGap gap ++ part
        let behind := k.skip part.length
        let (gap, after) := behind.takeWhile isGap
        if gap.isEmpty then some ⟨text, behind, false⟩
        else if hasShallowTab indent false behind.column gap then none
        else if !inFlow && after.column < indent then some ⟨text, after, gap.any isBreak⟩
        else scanPlain? fuel inFlow indent text gap after

/-! ## 2. Quoted scalars -/

def escaped? : Char → Option Char
  | '0' => some '\x00'
  | 'a' => some '\x07'
  | 'b' => some '\x08'
  | 't' | '\t' => some '\t'
  | 'n' => some '\n'
  | 'v' => some '\x0b'
  | 'f' => some '\x0c'
  | 'r' => some '\r'
  | 'e' => some '\x1b'
  | ' ' => some ' '
  | '"' => some '"'
  | '/' => some '/'
  | '\\' => some '\\'
  | 'N' => some '\x85'
  | '_' => some '\u00a0'
  | 'L' => some '\u2028'
  | 'P' => some '\u2029'
  | _ => none

def hexLength? : Char → Option Nat
  | 'x' => some 2
  | 'u' => some 4
  | 'U' => some 8
  | _ => none

def hexDigit? (c : Char) : Option Nat :=
  if c.isDigit then some (c.toNat - '0'.toNat)
  else if 'a' ≤ c ∧ c ≤ 'f' then some (c.toNat - 'a'.toNat + 10)
  else if 'A' ≤ c ∧ c ≤ 'F' then some (c.toNat - 'A'.toNat + 10)
  else none

def hexChar? (digits : List Char) : Option Char :=
  (digits.foldl (fun code c => code.bind fun n => (hexDigit? c).map (n * 16 + ·)) (some 0)).bind
    fun code => if h : code.isValidChar then some (Char.ofNatAux code h) else none

/-- The text of a quoted scalar up to its closing quote, and the place behind it; `fuel` bounds the
number of steps. -/
def scanQuoted? (fuel : Nat) (quote : Char) (text : List Char) (k : Cursor) :
    Option (List Char × Cursor) :=
  match fuel with
  | 0 => none
  | fuel + 1 =>
    if k.atDocumentMarker then none
    else match k.rest with
      | [] => none
      | c :: rest =>
        if isGap c then
          let (gap, after) := k.takeWhile isGap
          scanQuoted? fuel quote (text ++ foldGap gap) after
        else if c == quote then
          if quote == '\'' && rest.head? == some '\'' then
            scanQuoted? fuel quote (text ++ ['\'']) (k.skip 2)
          else some (text, k.next)
        else if quote == '"' && c == '\\' then
          match rest with
          | [] => none
          | d :: digits =>
            if isBreak d then
              let (gap, after) := (k.skip 2).takeWhile isGap
              scanQuoted? fuel quote (text ++ gap.filter isBreak) after
            else match escaped? d, hexLength? d with
              | some e, _ => scanQuoted? fuel quote (text ++ [e]) (k.skip 2)
              | none, some n =>
                if digits.length < n then none
                else match hexChar? (digits.take n) with
                  | some e => scanQuoted? fuel quote (text ++ [e]) (k.skip (n + 2))
                  | none => none
              | none, none => none
        else
          let (run, after) := k.takeWhile fun c => !isGap c && c != quote && c != '\\'
          if run.isEmpty then scanQuoted? fuel quote (text ++ [c]) k.next
          else scanQuoted? fuel quote (text ++ run) after

/-! ## 3. Block scalars -/

inductive Chomping where
  | strip
  | clip
  | keep
  deriving DecidableEq, Repr

def chomping? : Char → Option Chomping
  | '+' => some .keep
  | '-' => some .strip
  | _ => none

/-- The signs behind the mark of a block: how its end is treated, and its indentation. -/
def blockHeader? (cs : List Char) : Option (Chomping × Option Nat × Nat) :=
  let width? (c : Char) : Option (Option Nat) :=
    if c.isDigit then some (if c == '0' then none else some (c.toNat - '0'.toNat)) else none
  match cs with
  | [] => some (.clip, none, 0)
  | c :: rest =>
    match chomping? c, width? c with
    | some chomping, _ =>
      match rest.head?.bind width? with
      | some none => none
      | some (some n) => some (chomping, some n, 2)
      | none => some (chomping, none, 1)
    | none, some none => none
    | none, some (some n) =>
      match rest.head?.bind chomping? with
      | some chomping => some (chomping, some n, 2)
      | none => some (.clip, some n, 1)
    | none, none => some (.clip, none, 0)

/-- The blank lines before the next line of a block: their breaks, the widest indentation seen, and
the place behind the indentation.  A tab must not stand where indentation is expected. -/
def blockBreaks? (fuel : Nat) (indent : Option Nat) (breaks : List Char) (widest : Nat)
    (k : Cursor) : Option (List Char × Nat × Cursor) :=
  match fuel with
  | 0 => none
  | fuel + 1 =>
    let spaces := (k.rest.takeWhile (· == ' ')).length
    let wanted := match indent with
      | some n => min spaces (n - k.column)
      | none => spaces
    let k := k.skip wanted
    let widest := max widest k.column
    if k.sees '\t' && indent.all (k.column < ·) then none
    else match k.rest with
      | c :: _ =>
        if isBreak c then blockBreaks? fuel indent (breaks ++ [c]) widest k.next
        else some (breaks, widest, k)
      | [] => some (breaks, widest, k)

/-- The lines of a block.  `lead` is the break behind the last line and `trail` the breaks of the
blank lines after it; `blankLead` tells that the last line started with a blank. -/
def blockLines? (fuel : Nat) (style : ScalarStyle) (chomping : Chomping) (indent : Nat)
    (text lead trail : List Char) (blankLead : Bool) (k : Cursor) : Option (List Char × Cursor) :=
  match fuel with
  | 0 => none
  | fuel + 1 =>
    if k.column == indent && !k.rest.isEmpty then
      let blank := k.rest.head?.any isSpace
      let joined :=
        if style == .folded && lead == ['\n'] && !blankLead && !blank then
          if trail.isEmpty then [' '] else []
        else lead
      let (line, behind) := k.takeWhile fun c => !isBreak c
      let text := text ++ joined ++ trail ++ line
      let lead := behind.rest.take 1
      match blockBreaks? fuel (some indent) [] 0 behind.next with
      | none => none
      | some (trail, _, after) =>
        blockLines? fuel style chomping indent text lead trail blank after
    else
      let kept := match chomping with
        | .strip => []
        | .clip => lead
        | .keep => lead ++ trail
      some (text ++ kept, k)

/-- A block scalar behind its mark; `parent` is the indentation of the collection around it. -/
def scanBlock? (fuel : Nat) (style : ScalarStyle) (parent : Option Nat) (k : Cursor) :
    Option (List Char × Cursor) :=
  (blockHeader? k.rest).bind fun (chomping, width, signs) =>
    let k := (k.skip signs).skipToBreak
    if atBreak k.rest then
      let least := match parent with
        | some n => n + 1
        | none => 1
      let given := width.map fun n => (parent.getD 0) + n
      (blockBreaks? fuel given [] 0 k.next).bind fun (trail, widest, after) =>
        let indent := given.getD (max widest least)
        blockLines? fuel style chomping indent [] [] trail false after
    else none

end TextScore.Yaml
