import Mathlib
import TextScore.Proofs.Notation.Outline
import TextScore.Proofs.Notation.Signature

/-!
# Account — every word of a text is accounted for

An account says what has become of one line: of the text before its bar, of a last word without a
partner, and of each pair of words.  Which account a line has is said without any reading of it, and
the output of a parse is what the accounts of its lines come to: no pair is lost, counted twice or
put down to another line.
-/

namespace TextScore

/-- The diagnostic, wherever in its line it is placed. -/
def Diagnostic.withoutColumn (d : Diagnostic) : Diagnostic :=
  { d with column := none }

namespace Notation

open TextScore.Text

/-! ## 1. Accounts -/

/-- What has become of one line; each pair is a note or one fault. -/
structure LineAccount where
  line : Nat
  signature : TimeSignature
  signatureFault : Option Fault
  danglingFault : Option Fault
  pairs : List (Except Fault (NoteKind × Duration))

namespace LineAccount

def notes (a : LineAccount) : List (NoteKind × Duration) :=
  a.pairs.filterMap fun
    | .ok note => some note
    | .error _ => none

def pairFaults (a : LineAccount) : List Fault :=
  a.pairs.filterMap fun
    | .ok _ => none
    | .error fault => some fault

/-- Everything reported for the line. -/
def faults (a : LineAccount) : List Fault :=
  a.signatureFault.toList ++ (a.danglingFault.toList ++ a.pairFaults)

def diagnostics (a : LineAccount) : List Diagnostic :=
  a.faults.map fun fault => fault.atPlace a.line none

/-- The measure that the line contributes if it has a note. -/
def draft (a : LineAccount) : Draft :=
  ⟨a.line, a.signature, a.notes⟩

end LineAccount

/-- A line is all body, or a bar stands between its body and the text before it. -/
inductive Divides : List Char → Option (List Char) → List Char → Prop
  | plain {body : List Char} (h : '|' ∉ body) : Divides body none body
  | barred {before body : List Char} (h : '|' ∉ before) :
      Divides (before ++ '|' :: body) (some before) body

/-- The signature of a line and the fault found before its bar. -/
inductive AccountsSignature : Option (List Char) → TimeSignature → Option Fault → Prop
  | unwritten : AccountsSignature none .common none
  | written {before : List Char} {ts : TimeSignature} (h : WritesSignature before ts) :
      AccountsSignature (some before) ts none
  | malformed {before : List Char} (h : ∀ ts, ¬ WritesSignature before ts) :
      AccountsSignature (some before) .common (some (.malformedTimeSignature (trim before)))

/-- The last of an odd number of words has no partner. -/
inductive AccountsDangling : List (List Char) → Option Fault → Prop
  | even {ws : List (List Char)} (h : ws.length % 2 = 0) : AccountsDangling ws none
  | odd {ws : List (List Char)} {last : List Char} (h : ws.length % 2 = 1)
      (hlast : ws.getLast? = some last) : AccountsDangling ws (some (.danglingToken last))

/-- A pair is a note if both halves are good, and else one fault under its first bad half. -/
inductive AccountsPair (symbol duration : List Char) : Except Fault (NoteKind × Duration) → Prop
  | note {kind : NoteKind} {length : Duration} (hsymbol : readSymbol? symbol = some kind)
      (hduration : Duration.ofCode? duration = some length) :
      AccountsPair symbol duration (.ok (kind, length))
  | badSymbol {length : Duration} (hsymbol : readSymbol? symbol = none)
      (hduration : Duration.ofCode? duration = some length) :
      AccountsPair symbol duration (.error (.invalidPitch symbol none))
  | badBoth (hsymbol : readSymbol? symbol = none) (hduration : Duration.ofCode? duration = none) :
      AccountsPair symbol duration (.error (.invalidPitch symbol (some duration)))
  | badDuration {kind : NoteKind} (hsymbol : readSymbol? symbol = some kind)
      (hduration : Duration.ofCode? duration = none) :
      AccountsPair symbol duration (.error (.invalidDuration duration symbol))

/-- There is one entry for each two words, in order. -/
structure AccountsPairs (ws : List (List Char))
    (entries : List (Except Fault (NoteKind × Duration))) : Prop where
  length : entries.length = ws.length / 2
  pair : ∀ (i : Nat) (entry : Except Fault (NoteKind × Duration)), entries[i]? = some entry →
    ∃ symbol duration, ws[2 * i]? = some symbol ∧ ws[2 * i + 1]? = some duration ∧
      AccountsPair symbol duration entry

/-- The account says what the line holds, part by part. -/
inductive Accounts : SourceLine → LineAccount → Prop
  | intro {line : SourceLine} {a : LineAccount} {before : Option (List Char)} {body : List Char}
      (hline : a.line = line.number) (hdivides : Divides line.chars before body)
      (hsignature : AccountsSignature before a.signature a.signatureFault)
      (hdangling : AccountsDangling (words body) a.danglingFault)
      (hpairs : AccountsPairs (words body) a.pairs) : Accounts line a

/-! ## 2. Each part has one account -/

theorem divides_none_iff {chars body : List Char} :
    Divides chars none body ↔ splitAtFirst? '|' chars = none ∧ body = chars := by
  rw [splitAtFirst?_eq_none_iff]
  constructor
  · rintro ⟨h⟩
    exact ⟨h, rfl⟩
  · rintro ⟨h, rfl⟩
    exact .plain h

theorem divides_some_iff {chars before body : List Char} :
    Divides chars (some before) body ↔ splitAtFirst? '|' chars = some (before, body) := by
  rw [splitAtFirst?_eq_some_iff]
  constructor
  · rintro (_ | h)
    exact ⟨h, rfl⟩
  · rintro ⟨h, rfl⟩
    exact .barred h

theorem accountsSignature_none_iff {ts : TimeSignature} {fault : Option Fault} :
    AccountsSignature none ts fault ↔ ts = .common ∧ fault = none := by
  constructor
  · rintro ⟨⟩
    exact ⟨rfl, rfl⟩
  · rintro ⟨rfl, rfl⟩
    exact .unwritten

theorem accountsSignature_some_iff {before : List Char} {ts : TimeSignature}
    {fault : Option Fault} :
    AccountsSignature (some before) ts fault ↔
      ts = (readPrefix before).1 ∧ fault = (readPrefix before).2.map (·.fault) := by
  unfold readPrefix
  -- what is read decides which of the three cases can hold
  cases h : readSignature? before with
  | some signature =>
    have hwrites : WritesSignature before signature := readSignature?_eq_some_iff.mp h
    constructor
    · rintro (_ | h' | h')
      · rw [readSignature?_of_writesSignature h'] at h
        exact ⟨Option.some.inj h, rfl⟩
      · exact absurd hwrites (h' signature)
    · rintro ⟨rfl, rfl⟩
      exact .written hwrites
  | none =>
    have hwrites : ∀ ts, ¬ WritesSignature before ts := readSignature?_eq_none_iff.mp h
    constructor
    · rintro (_ | h' | h')
      · exact absurd h' (hwrites ts)
      · exact ⟨rfl, rfl⟩
    · rintro ⟨rfl, rfl⟩
      exact .malformed hwrites

theorem accountsDangling_iff (toks : List Token) {fault : Option Fault} :
    AccountsDangling (toks.map (·.chars)) fault ↔ fault = (dangling? toks).map (·.fault) := by
  have hlast : (toks.map (·.chars)).getLast? = toks.getLast?.map (·.chars) := List.getLast?_map
  have hlength : (toks.map (·.chars)).length = toks.length := List.length_map _
  -- the last word is the last token, without its column
  unfold dangling?
  by_cases heven : toks.length % 2 = 0
  · rw [if_pos heven]
    constructor
    · rintro (h | ⟨h, h'⟩)
      · rfl
      · omega
    · rintro rfl
      exact .even (by rwa [hlength])
  · rw [if_neg heven, Option.map_map]
    have hne : toks ≠ [] := by
      rintro rfl
      exact heven rfl
    rw [List.getLast?_eq_some_getLast hne] at hlast ⊢
    constructor
    · rintro (h | ⟨h, h'⟩)
      · omega
      · rw [hlast] at h'
        rw [← Option.some.inj h']
        rfl
    · rintro rfl
      exact .odd (by omega) hlast

/-- What a pair says, without the columns of its words. -/
def pairEntry (symbol duration : Token) : Except Fault (NoteKind × Duration) :=
  (readPair symbol duration).mapError (·.fault)

theorem accountsPair_iff (symbol duration : Token) {entry : Except Fault (NoteKind × Duration)} :
    AccountsPair symbol.chars duration.chars entry ↔ entry = pairEntry symbol duration := by
  unfold pairEntry readPair
  constructor
  · intro h
    cases h with
    | note hsymbol hduration => rw [hsymbol, hduration]; rfl
    | badSymbol hsymbol hduration => rw [hsymbol, hduration]; rfl
    | badBoth hsymbol hduration => rw [hsymbol, hduration]; rfl
    | badDuration hsymbol hduration => rw [hsymbol, hduration]; rfl
  · rintro rfl
    cases hsymbol : readSymbol? symbol.chars with
    | some kind =>
      cases hduration : Duration.ofCode? duration.chars with
      | some length => exact .note hsymbol hduration
      | none => exact .badDuration hsymbol hduration
    | none =>
      cases hduration : Duration.ofCode? duration.chars with
      | some length => exact .badSymbol hsymbol hduration
      | none => exact .badBoth hsymbol hduration

theorem accountsPairs_cons_iff {symbol duration : List Char} {ws : List (List Char)}
    {entries : List (Except Fault (NoteKind × Duration))} :
    AccountsPairs (symbol :: duration :: ws) entries ↔
      ∃ entry rest, entries = entry :: rest ∧ AccountsPair symbol duration entry ∧
        AccountsPairs ws rest := by
  -- the first two words have the first entry, and every other entry moves up by two words
  constructor
  · rintro ⟨hlength, hpair⟩
    cases entries with
    | nil =>
      simp only [List.length_cons, List.length_nil] at hlength
      omega
    | cons entry rest =>
      refine ⟨entry, rest, rfl, ?_, ?_, ?_⟩
      · obtain ⟨s, d, hs, hd, hentry⟩ := hpair 0 entry rfl
        obtain rfl : symbol = s := Option.some.inj hs
        obtain rfl : duration = d := Option.some.inj hd
        exact hentry
      · simp only [List.length_cons] at hlength
        omega
      · intro i later hlater
        exact hpair (i + 1) later hlater
  · rintro ⟨entry, rest, rfl, hentry, hlength, hpair⟩
    refine ⟨?_, ?_⟩
    · simp only [List.length_cons]
      omega
    · intro i later hlater
      cases i with
      | zero =>
        obtain rfl : entry = later := Option.some.inj hlater
        exact ⟨symbol, duration, rfl, rfl, hentry⟩
      | succ i => exact hpair i later hlater

theorem accountsPairs_of_short {ws : List (List Char)} (h : ws.length < 2)
    {entries : List (Except Fault (NoteKind × Duration))} :
    AccountsPairs ws entries ↔ entries = [] := by
  constructor
  · rintro ⟨hlength, -⟩
    apply List.length_eq_zero_iff.mp
    omega
  · rintro rfl
    refine ⟨?_, ?_⟩
    · rw [List.length_nil]
      omega
    · intro i entry hentry
      cases hentry

theorem accountsPairs_iff (toks : List Token)
    {entries : List (Except Fault (NoteKind × Duration))} :
    AccountsPairs (toks.map (·.chars)) entries ↔
      entries = (readPairs toks).map (Except.mapError (·.fault)) := by
  induction toks using readPairs.induct generalizing entries with
  | case1 symbol duration toks ih =>
    rw [List.map_cons, List.map_cons, accountsPairs_cons_iff, readPairs, List.map_cons]
    simp only [accountsPair_iff, ih]
    constructor
    · rintro ⟨entry, rest, rfl, rfl, rfl⟩
      rfl
    · rintro rfl
      exact ⟨_, _, rfl, rfl, rfl⟩
  | case2 toks htoks =>
    have hshort : (toks.map (·.chars)).length < 2 := by
      rw [List.length_map]
      rcases toks with - | ⟨symbol, - | ⟨duration, rest⟩⟩
      · exact Nat.two_pos
      · exact Nat.one_lt_two
      · exact absurd rfl (htoks symbol duration rest)
    rw [accountsPairs_of_short hshort, readPairs_of_no_pair htoks]
    rfl

/-! ## 3. Each line has one account -/

/-- The account of a body behind a signature that has been read. -/
def bodyAccount (line : Nat) (signature : TimeSignature × Option LocatedFault) (column : Nat)
    (body : List Char) : LineAccount :=
  { line := line
    signature := signature.1
    signatureFault := signature.2.map (·.fault)
    danglingFault := (dangling? (tokens column body)).map (·.fault)
    pairs := (readPairs (tokens column body)).map (Except.mapError (·.fault)) }

def accountOf (line : SourceLine) : LineAccount :=
  match splitAtFirst? '|' line.chars with
  | some (before, behind) => bodyAccount line.number (readPrefix before) (before.length + 2) behind
  | none => bodyAccount line.number (.common, none) 1 line.chars

theorem eq_bodyAccount_iff {a : LineAccount} {line : Nat}
    {signature : TimeSignature × Option LocatedFault} {column : Nat} {body : List Char} :
    a = bodyAccount line signature column body ↔
      a.line = line ∧ (a.signature = signature.1 ∧ a.signatureFault = signature.2.map (·.fault)) ∧
        AccountsDangling (words body) a.danglingFault ∧ AccountsPairs (words body) a.pairs := by
  rw [← map_chars_tokens column body, accountsDangling_iff, accountsPairs_iff]
  constructor
  · rintro rfl
    exact ⟨rfl, ⟨rfl, rfl⟩, rfl, rfl⟩
  · rintro ⟨rfl, ⟨hsignature, hfault⟩, hdangling, hpairs⟩
    cases a
    simp only at hsignature hfault hdangling hpairs
    rw [hsignature, hfault, hdangling, hpairs]
    rfl

theorem accounts_iff {line : SourceLine} {a : LineAccount} :
    Accounts line a ↔ a = accountOf line := by
  unfold accountOf
  cases hsplit : splitAtFirst? '|' line.chars with
  | some cut =>
    obtain ⟨before, behind⟩ := cut
    simp only [eq_bodyAccount_iff, ← accountsSignature_some_iff]
    constructor
    -- there is a bar, so the line cannot be all body, and it is cut in one place only
    · rintro ⟨hline, hdivides, hsignature, hdangling, hpairs⟩
      rename_i found body
      cases found with
      | none =>
        rw [(divides_none_iff.mp hdivides).1] at hsplit
        cases hsplit
      | some found =>
        rw [divides_some_iff.mp hdivides] at hsplit
        cases hsplit
        exact ⟨hline, hsignature, hdangling, hpairs⟩
    · rintro ⟨hline, hsignature, hdangling, hpairs⟩
      exact .intro hline (divides_some_iff.mpr hsplit) hsignature hdangling hpairs
  | none =>
    simp only [eq_bodyAccount_iff, Option.map_none, ← accountsSignature_none_iff]
    constructor
    · rintro ⟨hline, hdivides, hsignature, hdangling, hpairs⟩
      rename_i found body
      cases found with
      | none =>
        obtain ⟨-, rfl⟩ := divides_none_iff.mp hdivides
        exact ⟨hline, hsignature, hdangling, hpairs⟩
      | some found =>
        rw [divides_some_iff.mp hdivides] at hsplit
        cases hsplit
    · rintro ⟨hline, hsignature, hdangling, hpairs⟩
      exact .intro hline (divides_none_iff.mpr ⟨hsplit, rfl⟩) hsignature hdangling hpairs

variable (signature : TimeSignature × Option LocatedFault) (column : Nat) (body : List Char)

theorem notes_bodyAccount (line : Nat) :
    (bodyAccount line signature column body).notes = (readBody signature column body).notes := by
  show ((readPairs (tokens column body)).map _).filterMap _ = notesOf _
  unfold notesOf
  rw [List.filterMap_map]
  apply List.filterMap_congr
  rintro (fault | note) -
  · rfl
  · rfl

theorem pairFaults_bodyAccount (line : Nat) :
    (bodyAccount line signature column body).pairFaults =
      (faultsOf (readPairs (tokens column body))).map (·.fault) := by
  show ((readPairs (tokens column body)).map _).filterMap _ = _
  unfold faultsOf
  rw [List.filterMap_map, List.map_filterMap]
  apply List.filterMap_congr
  rintro (fault | note) -
  · rfl
  · rfl

theorem faults_bodyAccount (line : Nat) :
    (bodyAccount line signature column body).faults =
      (readBody signature column body).faults.map (·.fault) := by
  unfold LineAccount.faults LineReading.faults
  rw [pairFaults_bodyAccount, List.map_append]
  simp only [bodyAccount, readBody, List.map_append]
  rw [Option.toList_map, Option.toList_map]

/-- The account of a line and what it reads as come from the same body. -/
theorem accountOf_eq (line : SourceLine) :
    ∃ signature column body, accountOf line = bodyAccount line.number signature column body ∧
      readLine line.chars = readBody signature column body := by
  unfold accountOf readLine
  cases splitAtFirst? '|' line.chars with
  | some cut => exact ⟨_, _, _, rfl, rfl⟩
  | none => exact ⟨_, _, _, rfl, rfl⟩

theorem draft_accountOf (line : SourceLine) :
    (readNumbered line).draft? =
      if (accountOf line).notes = [] then none else some (accountOf line).draft := by
  obtain ⟨signature, column, body, haccount, hread⟩ := accountOf_eq line
  unfold NumberedReading.draft? readNumbered LineAccount.draft
  rw [haccount, hread, notes_bodyAccount]
  simp only [List.isEmpty_iff]
  rfl

theorem diagnostics_accountOf (line : SourceLine) :
    (readNumbered line).diagnostics.map Diagnostic.withoutColumn =
      (accountOf line).diagnostics := by
  obtain ⟨signature, column, body, haccount, hread⟩ := accountOf_eq line
  unfold NumberedReading.diagnostics readNumbered LineAccount.diagnostics
  rw [haccount, hread, faults_bodyAccount, List.map_map, List.map_map]
  rfl

/-- The accounts of the lines of a text that are not blank. -/
def accountsOf (text : String) : List LineAccount :=
  (contentLines text.toList).map accountOf

theorem outline_eq_accounts (text : String) :
    outline text = ((accountsOf text).filter (·.notes ≠ [])).map LineAccount.draft := by
  unfold outline drafts readings accountsOf
  induction contentLines text.toList with
  | nil => rfl
  | cons line rest ih =>
    have hdraft := draft_accountOf line
    unfold readNumbered at hdraft
    rw [List.map_cons, List.map_cons, List.filterMap_cons, hdraft, ih]
    by_cases h : (accountOf line).notes = []
    · rw [if_pos h, List.filter_cons_of_neg (by simpa using h)]
    · rw [if_neg h, List.filter_cons_of_pos (by simpa using h), List.map_cons]

theorem lineFaults_eq_accounts (text : String) :
    (lineFaults text).map Diagnostic.withoutColumn =
      (accountsOf text).flatMap LineAccount.diagnostics := by
  unfold lineFaults readings accountsOf
  rw [List.flatMap_map, List.flatMap_map, List.map_flatMap]
  congr 1
  funext line
  exact diagnostics_accountOf line

theorem lineFaults_eq_nil_iff_accounts (text : String) :
    lineFaults text = [] ↔ ∀ a ∈ accountsOf text, a.faults = [] := by
  rw [← List.map_eq_nil_iff (f := Diagnostic.withoutColumn),
    lineFaults_eq_accounts, List.flatMap_eq_nil_iff]
  unfold LineAccount.diagnostics
  simp only [List.map_eq_nil_iff]

section

variable {σ : Type} [IdSource σ] (ids : σ) (options : ParseOptions) (text : String)

-- a bad signature, a bad pair and a word too many on one line; a bar behind no signature
example :
    (accountsOf "3/x | C4 q Z9 w D4\n\n| R h").map
        (fun a => (a.line, a.notes, a.faults.map Fault.kind)) =
      [(1, [(.pitched ⟨.C, .natural, 4⟩, .quarter)],
          [.malformedTimeSignature, .danglingToken, .invalidPitch]),
        (3, [(.rest, .half)], [.malformedTimeSignature])] := by
  decide

end

end Notation

end TextScore
