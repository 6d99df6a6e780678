import Mathlib
import TextScore.Proofs.Notation.Outline
import TextScore.Proofs.Notation.Signature
import TextScore.Proofs.Pitch.Token

/-!
# Legible — what the notation can write

A measure is legible when it has a note, its signature is positive, and each of its pitches has one
octave digit.  Names play no part in this, and whatever is read from a text is legible.
-/

namespace TextScore

/-- Rests can always be written, pitches with one octave digit only. -/
def NoteKind.Legible : NoteKind → Prop
  | .pitched p => p.Legible
  | .rest => True

instance : (kind : NoteKind) → Decidable kind.Legible
  | .pitched p => inferInstanceAs (Decidable p.Legible)
  | .rest => isTrue trivial

/-- The measure has a note, and all of it can be written. -/
def Measure.Legible (m : Measure) : Prop :=
  m.notes ≠ [] ∧ m.signature.Positive ∧ ∀ note ∈ m.notes, note.kind.Legible

instance (m : Measure) : Decidable m.Legible :=
  inferInstanceAs (Decidable (_ ∧ _ ∧ _))

/-- All of the document can be written; without measures there is nothing to write. -/
def Document.Legible (doc : Document) : Prop :=
  ∀ m ∈ doc.measures, m.Legible

instance (doc : Document) : Decidable doc.Legible :=
  inferInstanceAs (Decidable (∀ m ∈ doc.measures, m.Legible))

/-! ## 1. Legibility is a matter of content -/

/-- What a legible measure says. -/
def LegibleContent (content : TimeSignature × List (NoteKind × Duration)) : Prop :=
  content.2 ≠ [] ∧ content.1.Positive ∧ ∀ note ∈ content.2, note.1.Legible

theorem Measure.legible_iff_content (m : Measure) : m.Legible ↔ LegibleContent m.content := by
  unfold Measure.Legible LegibleContent Measure.content
  rw [List.forall_mem_map, ne_eq, ne_eq, List.map_eq_nil_iff]

theorem Document.legible_iff_content (doc : Document) :
    doc.Legible ↔ ∀ content ∈ doc.content, LegibleContent content := by
  unfold Document.Legible Document.content
  rw [List.forall_mem_map]
  exact forall₂_congr fun m _ => m.legible_iff_content

/-! ## 2. What is read is legible -/

namespace Notation

open TextScore.Text

theorem legible_of_readSymbol? {cs : List Char} {kind : NoteKind}
    (h : readSymbol? cs = some kind) : kind.Legible := by
  unfold readSymbol? at h
  split at h
  · cases h
    exact trivial
  · obtain ⟨p, hp, rfl⟩ := Option.map_eq_some_iff.mp h
    exact Pitch.legible_of_ofToken? hp

theorem legible_of_readPair {symbol duration : Token} {note : NoteKind × Duration}
    (h : readPair symbol duration = .ok note) : note.1.Legible := by
  unfold readPair at h
  split at h
  next hkind _ =>
    cases h
    exact legible_of_readSymbol? hkind
  all_goals cases h

theorem legible_of_mem_readPairs (toks : List Token) :
    ∀ note ∈ notesOf (readPairs toks), note.1.Legible := by
  induction toks using readPairs.induct with
  | case1 symbol duration rest ih =>
    rw [readPairs]
    cases hpair : readPair symbol duration with
    | ok note =>
      rw [notesOf_cons_ok, List.forall_mem_cons]
      exact ⟨legible_of_readPair hpair, ih⟩
    | error fault => exact ih
  | case2 toks htoks =>
    have hnil : readPairs toks = [] := readPairs_of_no_pair htoks
    rw [hnil]
    exact List.forall_mem_nil _

theorem positive_of_writesSignature {text : List Char} {ts : TimeSignature}
    (h : WritesSignature text ts) : ts.Positive := by
  obtain ⟨-, -, -, -, hbeats, hbeatType⟩ := h
  exact ⟨hbeats.positive, hbeatType.positive⟩

theorem positive_readPrefix (text : List Char) : (readPrefix text).1.Positive := by
  unfold readPrefix
  split
  next h => exact positive_of_writesSignature (writesSignature_of_readSignature? h)
  next =>
    show TimeSignature.common.Positive
    decide

theorem readLine_legible (line : List Char) :
    (readLine line).signature.Positive ∧ ∀ note ∈ (readLine line).notes, note.1.Legible := by
  unfold readLine
  split
  next before _ _ => exact ⟨positive_readPrefix before, legible_of_mem_readPairs _⟩
  next =>
    have hcommon : TimeSignature.common.Positive := by decide
    exact ⟨hcommon, legible_of_mem_readPairs _⟩

theorem legible_of_lineContent? {line : List Char}
    {content : TimeSignature × List (NoteKind × Duration)} (h : lineContent? line = some content) :
    LegibleContent content := by
  unfold lineContent? at h
  split at h
  · cases h
  next hne =>
    cases h
    exact ⟨hne, readLine_legible line⟩

/-- A document that is read from a text is legible. -/
theorem legible_of_parseFrom {σ : Type} [IdSource σ] {ids : σ} {options : ParseOptions}
    {text : String} {doc : Document} (h : (parseFrom ids options text).1.document = some doc) :
    doc.Legible := by
  rw [Document.legible_iff_content, content_of_document ids options text h, map_content_outline]
  intro content hmem
  obtain ⟨line, -, hline⟩ := List.mem_filterMap.mp hmem
  exact legible_of_lineContent? hline

end Notation

end TextScore
