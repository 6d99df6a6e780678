import Mathlib
import TextScore.Notation.Line
import TextScore.Proofs.Text.Lines

/-!
# Signature — what a text before a bar says

A signature is two positive numbers around a slash, with blanks allowed around either.  This is what
reading accepts, and it accepts every signature that is printed with both parts positive.
-/

namespace TextScore

/-- Neither part of the signature is zero. -/
def TimeSignature.Positive (ts : TimeSignature) : Prop :=
  0 < ts.beats ∧ 0 < ts.beatType

instance (ts : TimeSignature) : Decidable ts.Positive :=
  inferInstanceAs (Decidable (_ ∧ _))

namespace Notation

open TextScore.Text

/-! ## 1. Cutting at the first separator -/

theorem splitAtFirst?_append {separator : Char} {before : List Char} (h : separator ∉ before)
    (behind : List Char) :
    splitAtFirst? separator (before ++ separator :: behind) = some (before, behind) := by
  have hkeep : ∀ c ∈ before, (c != separator) = true := by
    intro c hc
    rw [bne_iff_ne]
    rintro rfl
    exact h hc
  unfold splitAtFirst?
  rw [if_pos (by simp), List.takeWhile_append_of_pos hkeep, List.dropWhile_append_of_pos hkeep,
    List.takeWhile_cons_of_neg (by simp), List.dropWhile_cons_of_neg (by simp), List.append_nil,
    List.tail_cons]

theorem splitAtFirst?_eq_none_iff {separator : Char} {cs : List Char} :
    splitAtFirst? separator cs = none ↔ separator ∉ cs := by
  unfold splitAtFirst?
  split <;> simp_all

theorem splitAtFirst?_eq_some_iff {separator : Char} {cs before behind : List Char} :
    splitAtFirst? separator cs = some (before, behind) ↔
      separator ∉ before ∧ cs = before ++ separator :: behind := by
  constructor
  · intro h
    -- without a separator there would be nothing to cut
    have hmem : separator ∈ cs := by
      by_contra hno
      rw [splitAtFirst?_eq_none_iff.mpr hno] at h
      cases h
    obtain ⟨x, y, rfl, hx⟩ := List.eq_append_cons_of_mem hmem
    rw [splitAtFirst?_append hx] at h
    cases h
    exact ⟨hx, rfl⟩
  · rintro ⟨hbefore, rfl⟩
    exact splitAtFirst?_append hbefore behind

/-- What has no separator in it ends up behind the first one. -/
theorem splitAtFirst?_append_right {separator : Char} {more : List Char} (h : separator ∉ more)
    (cs : List Char) :
    splitAtFirst? separator (cs ++ more) =
      (splitAtFirst? separator cs).map fun cut => (cut.1, cut.2 ++ more) := by
  cases hcut : splitAtFirst? separator cs with
  | none =>
    have hcs := splitAtFirst?_eq_none_iff.mp hcut
    exact splitAtFirst?_eq_none_iff.mpr (List.not_mem_append hcs h)
  | some cut =>
    obtain ⟨hbefore, rfl⟩ := splitAtFirst?_eq_some_iff.mp hcut
    rw [List.append_assoc, List.cons_append, splitAtFirst?_append hbefore]
    rfl

/-! ## 2. Positive numbers -/

/-- A run of digits whose value is the positive number `n`. -/
structure WritesPositive (digits : List Char) (n : UInt32) : Prop where
  ne_nil : digits ≠ []
  digit : ∀ c ∈ digits, c.isDigit = true
  value : Nat.ofDigitChars 10 digits 0 = n.toNat
  positive : 0 < n

theorem positive?_eq_some_iff {cs : List Char} {n : UInt32} :
    positive? cs = some n ↔ WritesPositive cs n := by
  have hsize : n.toNat < UInt32.size := n.toNat_lt
  constructor
  · intro h
    unfold positive? at h
    split at h
    next hdigits =>
      simp only at h
      split at h
      next hvalue =>
        have hn : UInt32.ofNat (Nat.ofDigitChars 10 cs 0) = n := Option.some.inj h
        have hto : n.toNat = Nat.ofDigitChars 10 cs 0 := by
          rw [← hn, UInt32.toNat_ofNat_of_lt' hvalue.2]
        refine ⟨hdigits.1, List.all_eq_true.mp hdigits.2, hto.symm, ?_⟩
        rw [UInt32.lt_iff_toNat_lt, hto]
        exact hvalue.1
      next => cases h
    next => cases h
  · rintro ⟨hne, hdigit, hvalue, hpos⟩
    have hpos' : 0 < n.toNat := by rwa [UInt32.lt_iff_toNat_lt] at hpos
    unfold positive?
    rw [if_pos ⟨hne, List.all_eq_true.mpr hdigit⟩]
    simp only
    rw [hvalue, if_pos ⟨hpos', hsize⟩, UInt32.ofNat_toNat]

theorem isBlank_eq_false_of_writesPositive {digits : List Char} {n : UInt32}
    (h : WritesPositive digits n) : ∀ c ∈ digits, isBlank c = false := fun c hc =>
  isBlank_eq_false_of_isDigit (h.digit c hc)

theorem writesPositive_toDigits {n : UInt32} (h : 0 < n) :
    WritesPositive (Nat.toDigits 10 n.toNat) n where
  ne_nil := Nat.toDigits_ne_nil
  digit _ hc := Nat.isDigit_of_mem_toDigits (by decide) (by decide) hc
  value := Nat.ofDigitChars_ten_toDigits
  positive := h

theorem positive?_toDigits (n : UInt32) :
    positive? (Nat.toDigits 10 n.toNat) = if 0 < n then some n else none := by
  split
  next h => exact positive?_eq_some_iff.mpr (writesPositive_toDigits h)
  next h =>
    have hn : n = 0 := by
      apply UInt32.toNat_inj.mp
      rw [UInt32.lt_iff_toNat_lt] at h
      exact Nat.eq_zero_of_not_pos h
    rw [hn]
    decide

/-! ## 3. Signatures -/

/-- Two positive numbers around a slash, with blanks around either. -/
inductive WritesSignature : List Char → TimeSignature → Prop
  | intro {a beats b c beatType d : List Char} {ts : TimeSignature}
      (ha : allBlank a = true) (hb : allBlank b = true)
      (hc : allBlank c = true) (hd : allBlank d = true)
      (hbeats : WritesPositive beats ts.beats) (hbeatType : WritesPositive beatType ts.beatType) :
      WritesSignature (a ++ beats ++ b ++ '/' :: (c ++ beatType ++ d)) ts

theorem ofParts?_eq_some_iff {beats beatType : UInt32} {ts : TimeSignature} :
    TimeSignature.ofParts? beats beatType = some ts ↔
      ts = ⟨beats, beatType⟩ ∧ beats ≠ 0 ∧ beatType ≠ 0 := by
  unfold TimeSignature.ofParts?
  split <;> grind

theorem readSignature?_eq_some {text x y : List Char} {ts : TimeSignature}
    (htext : splitAtFirst? '/' (trim text) = some (x, y)) (hx : WritesPositive (trim x) ts.beats)
    (hy : WritesPositive (trim y) ts.beatType) : readSignature? text = some ts := by
  have hb : ts.beats ≠ 0 := by have := hx.positive; grind
  have ht : ts.beatType ≠ 0 := by have := hy.positive; grind
  unfold readSignature?
  rw [htext]
  simp only [Option.bind_some, positive?_eq_some_iff.mpr hx, positive?_eq_some_iff.mpr hy]
  exact ofParts?_eq_some_iff.mpr ⟨rfl, hb, ht⟩

theorem writesSignature_of_readSignature? {text : List Char} {ts : TimeSignature}
    (h : readSignature? text = some ts) : WritesSignature text ts := by
  unfold readSignature? at h
  obtain ⟨⟨x, y⟩, hxy, h⟩ := Option.bind_eq_some_iff.mp h
  obtain ⟨beats, hbeats, h⟩ := Option.bind_eq_some_iff.mp h
  obtain ⟨beatType, hbeatType, h⟩ := Option.bind_eq_some_iff.mp h
  obtain ⟨rfl, -, -⟩ := ofParts?_eq_some_iff.mp h
  obtain ⟨-, hsplit⟩ := splitAtFirst?_eq_some_iff.mp hxy
  -- each trim leaves its blanks behind: around the text, and around either number
  obtain ⟨a, d, htext, ha, hd⟩ := exists_trim text
  obtain ⟨a', b, hx, ha', hb⟩ := exists_trim x
  obtain ⟨c, d', hy, hc, hd'⟩ := exists_trim y
  have hall : text = (a ++ a') ++ trim x ++ b ++ '/' :: (c ++ trim y ++ (d' ++ d)) := by
    conv_lhs => rw [htext, hsplit, hx, hy]
    simp only [List.append_assoc, List.cons_append]
  rw [hall]
  exact .intro (by rw [allBlank_append, ha, ha', Bool.and_true]) hb hc
    (by rw [allBlank_append, hd, hd', Bool.and_true])
    (positive?_eq_some_iff.mp hbeats) (positive?_eq_some_iff.mp hbeatType)

theorem readSignature?_of_writesSignature {text : List Char} {ts : TimeSignature}
    (h : WritesSignature text ts) : readSignature? text = some ts := by
  obtain ⟨ha, hb, hc, hd, hbeats, hbeatType⟩ := h
  rename_i a beats b c beatType d
  have hvisible := isBlank_eq_false_of_writesPositive hbeats
  have hvisible' := isBlank_eq_false_of_writesPositive hbeatType
  obtain ⟨first, beats', rfl⟩ := List.exists_cons_of_ne_nil hbeats.ne_nil
  -- neither digits nor blanks are slashes, so the first slash is the one between the numbers
  have hslash : '/' ∉ (first :: beats') ++ b := by
    intro hmem
    rcases List.mem_append.mp hmem with hmem | hmem
    · have := hbeats.digit _ hmem
      simp at this
    · have := allBlank_iff.mp hb _ hmem
      simp [isBlank] at this
  have htrim : trim (a ++ (first :: beats') ++ b ++ '/' :: (c ++ beatType ++ d)) =
      (first :: beats') ++ b ++ '/' :: (c ++ beatType) := by
    have hlast : ∀ k ∈ ((first :: beats') ++ b ++ '/' :: (c ++ beatType)).getLast?,
        isBlank k = false := by
      intro k hk
      apply hvisible'
      rw [List.getLast?_append_of_ne_nil _ (by simp), List.getLast?_cons_of_ne_nil
        (by simp [hbeatType.ne_nil]), List.getLast?_append_of_ne_nil _ hbeatType.ne_nil] at hk
      exact List.mem_of_getLast? hk
    have hbetween := trim_between ha hd (x := (first :: beats') ++ b ++ '/' :: (c ++ beatType))
      (by intro k hk; exact hvisible k (by simpa using Or.inl hk.symm)) hlast
    rw [← hbetween]
    simp only [List.append_assoc, List.cons_append]
  apply readSignature?_eq_some (x := (first :: beats') ++ b) (y := c ++ beatType)
  · rw [htrim]
    exact splitAtFirst?_append hslash _
  · rwa [trim_append_blank hb, trim_of_visible hvisible]
  · rwa [trim_blank_append hc, trim_of_visible hvisible']

/-- Reading accepts exactly the texts that write a signature. -/
theorem readSignature?_eq_some_iff {text : List Char} {ts : TimeSignature} :
    readSignature? text = some ts ↔ WritesSignature text ts :=
  ⟨writesSignature_of_readSignature?, readSignature?_of_writesSignature⟩

theorem readSignature?_eq_none_iff {text : List Char} :
    readSignature? text = none ↔ ∀ ts, ¬ WritesSignature text ts := by
  rw [Option.eq_none_iff_forall_ne_some]
  simp only [ne_eq, readSignature?_eq_some_iff]

/-! ## 4. Printed signatures -/

theorem isDigit_or_of_mem_chars {ts : TimeSignature} {c : Char} (hc : c ∈ ts.chars) :
    c.isDigit = true ∨ c = '/' := by
  have hdigit : ∀ n : Nat, c ∈ Nat.toDigits 10 n → c.isDigit = true := fun _ h =>
    Nat.isDigit_of_mem_toDigits (by decide) (by decide) h
  unfold TimeSignature.chars at hc
  rcases List.mem_append.mp hc with hc | hc
  · exact Or.inl (hdigit _ hc)
  rcases List.mem_cons.mp hc with hc | hc
  · exact Or.inr hc
  · exact Or.inl (hdigit _ hc)

theorem visible_of_mem_chars {ts : TimeSignature} {c : Char} (hc : c ∈ ts.chars) :
    isBlank c = false ∧ c ≠ '|' := by
  rcases isDigit_or_of_mem_chars hc with hdigit | rfl
  · refine ⟨isBlank_eq_false_of_isDigit hdigit, ?_⟩
    rintro rfl
    simp at hdigit
  · decide

theorem writesSignature_chars {ts : TimeSignature} (h : ts.Positive) :
    WritesSignature (ts.chars ++ [' ']) ts := by
  have hintro := WritesSignature.intro (a := []) (b := []) (c := []) (d := [' ']) rfl rfl rfl rfl
    (writesPositive_toDigits h.1) (writesPositive_toDigits h.2)
  simpa [TimeSignature.chars] using hintro

theorem readSignature?_chars_of_not_positive {ts : TimeSignature} (h : ¬ ts.Positive) :
    readSignature? (ts.chars ++ [' ']) = none := by
  have hvisible : ∀ n : UInt32, trim (Nat.toDigits 10 n.toNat) = Nat.toDigits 10 n.toNat :=
    fun n => trim_of_visible fun c hc =>
      isBlank_eq_false_of_isDigit (Nat.isDigit_of_mem_toDigits (by decide) (by decide) hc)
  have hslash : '/' ∉ Nat.toDigits 10 ts.beats.toNat := by
    intro hmem
    have := Nat.isDigit_of_mem_toDigits (by decide) (by decide) hmem
    simp at this
  unfold readSignature?
  rw [trim_append_blank (by decide), trim_of_visible fun c hc => (visible_of_mem_chars hc).1,
    TimeSignature.chars, splitAtFirst?_append hslash]
  simp only [Option.bind_some, hvisible, positive?_toDigits]
  -- one of the two numbers is zero, and reading stops at the first such
  by_cases hb : 0 < ts.beats
  · have ht : ¬ 0 < ts.beatType := fun ht => h ⟨hb, ht⟩
    rw [if_pos hb, if_neg ht]
    rfl
  · rw [if_neg hb]
    rfl

/-- A printed signature is read back, unless a part of it is zero. -/
theorem readPrefix_chars (ts : TimeSignature) :
    if ts.Positive then readPrefix (ts.chars ++ [' ']) = (ts, none)
    else (readPrefix (ts.chars ++ [' '])).1 = .common := by
  unfold readPrefix
  split
  next h => rw [readSignature?_of_writesSignature (writesSignature_chars h)]
  next h => rw [readSignature?_chars_of_not_positive h]

end Notation

end TextScore
