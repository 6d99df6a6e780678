import Mathlib
import TextScore.Json.Print
import TextScore.Proofs.Json.Numeral

/-!
# RoundTrip — JSON values are read as they are printed

A value whose strings are texts and whose numbers are JSON numerals is read back from its indented
form, whatever lies around it.
-/

namespace TextScore.Json

open Decimal

/-! ## 1. Strings -/

theorem hexUnit?_hexDigit : ∀ n < 0x20,
    hexUnit? '0' '0' (hexDigit (n / 16)) (hexDigit (n % 16)) = some n := by
  decide

/-- What is escaped is read as the one character it stands for. -/
theorem readCharsAux_escape (c : Char) (before rest : List Char) :
    readCharsAux (some before) none (escape c ++ rest) =
      readCharsAux (some (c :: before)) none rest := by
  unfold escape
  split
  -- the escapes of one letter are computed; what is left is a control character or stands for itself
  case h_8 hquote hback hline hreturn htab hb hf =>
    split
    next hcontrol =>
      -- its code unit is no half of a pair
      have hhex := hexUnit?_hexDigit c.toNat hcontrol
      have hunit : pushUnit (some before) none c.toNat = (some (c :: before), none) := by
        unfold pushUnit
        rw [if_neg (by omega), if_neg (by omega), Char.ofNat_toNat]
        rfl
      simp only [List.cons_append, List.nil_append, readCharsAux, hhex, hunit]
    next hplain =>
      rw [List.singleton_append, readCharsAux.eq_def]
      split <;> simp_all [settle, Reading.push]
  all_goals rfl

theorem readCharsAux_flatMap_escape (cs before rest : List Char) :
    readCharsAux (some before) none (cs.flatMap escape ++ '"' :: rest) =
      some (some (String.ofList (before.reverse ++ cs)), rest) := by
  induction cs generalizing before with
  | nil =>
    rw [List.flatMap_nil, List.nil_append, List.append_nil]
    rfl
  | cons c cs ih =>
    rw [List.flatMap_cons, List.append_assoc, readCharsAux_escape, ih, List.reverse_cons,
      List.append_assoc, List.singleton_append]

theorem toList_quote (s : String) :
    (quote s).toList = '"' :: (s.toList.flatMap escape ++ ['"']) := by
  rw [quote, String.toList_ofList]

/-- A quoted text is read back up to its closing quote. -/
theorem readChars_flatMap_escape (s : String) (rest : List Char) :
    readChars (s.toList.flatMap escape ++ '"' :: rest) = some (some s, rest) := by
  unfold readChars
  rw [readCharsAux_flatMap_escape, List.reverse_nil, List.nil_append, String.ofList_toList]

/-! ## 2. Gaps -/

theorem skipGap_append {gap : List Char} (h : ∀ c ∈ gap, isGap c = true) (cs : List Char) :
    skipGap (gap ++ cs) = skipGap cs :=
  List.dropWhile_append_of_pos h

theorem skipGap_cons {c : Char} (h : isGap c = false) (cs : List Char) :
    skipGap (c :: cs) = c :: cs :=
  List.dropWhile_cons_of_neg (Bool.eq_false_iff.mp h)

theorem isGap_of_mem_newLine {depth : Nat} : ∀ c ∈ (newLine depth).toList, isGap c = true := by
  intro c hc
  rw [newLine, String.toList_ofList, List.mem_cons] at hc
  obtain rfl | hblank := hc
  · rfl
  · rw [List.eq_of_mem_replicate hblank]
    rfl

section

variable {gap : List Char} (h : ∀ c ∈ gap, isGap c = true) (fuel : Nat) (cs : List Char)

include h

theorem readValue_gap : readValue fuel (gap ++ cs) = readValue fuel cs := by
  cases fuel with
  | zero => rw [readValue, readValue]
  | succ fuel => rw [readValue, readValue, skipGap_append h]

theorem readItems_gap : readItems fuel (gap ++ cs) = readItems fuel cs := by
  cases fuel with
  | zero => rw [readItems, readItems]
  | succ fuel => rw [readItems, readItems, readValue_gap h]

theorem readFields_gap : readFields fuel (gap ++ cs) = readFields fuel cs := by
  cases fuel with
  | zero => rw [readFields, readFields]
  | succ fuel => rw [readFields, readFields, skipGap_append h]

end

/-! ## 3. Values -/

/-- A value that has a written form of its own. -/
inductive Writable : Json → Prop where
  | null : Writable .null
  | bool (value : Bool) : Writable (.bool value)
  | number {n : Numeral} (h : n.IsJson) : Writable (.number n.jsonChars)
  | text (s : String) : Writable (.string (some s))
  | array {items : List Json} (h : ∀ item ∈ items, Writable item) : Writable (.array items)
  | object {fields : List (Option String × Json)}
      (hkeys : ∀ field ∈ fields, field.1.isSome = true) (h : ∀ field ∈ fields, Writable field.2) :
      Writable (.object fields)

/-- The indented form is read back from the head of a text, with two steps for each character. -/
def ReadsBack (v : Json) : Prop :=
  ∀ depth fuel rest, EndsNumeral rest → 2 * (indented depth v).toList.length ≤ fuel →
    readValue fuel ((indented depth v).toList ++ rest) = some (v, rest)

theorem isGap_eq_false_of_numeral {c : Char} (h : c.isDigit = true ∨ c = '-') :
    isGap c = false := by
  by_contra hgap
  rw [Bool.not_eq_false] at hgap
  simp only [isGap, Bool.or_eq_true, beq_iff_eq] at hgap
  rcases hgap with ((rfl | rfl) | rfl) | rfl <;> revert h <;> decide

theorem readValue_jsonChars {n : Numeral} (h : n.IsJson) {rest : List Char}
    (hrest : EndsNumeral rest) (fuel : Nat) :
    readValue (fuel + 1) (n.jsonChars ++ rest) = some (.number n.jsonChars, rest) := by
  obtain ⟨c, cs, hchars, hc⟩ := exists_cons_jsonChars h
  -- the gap skipped before a value never takes part of a numeral away
  have hgap : skipGap (n.jsonChars ++ rest) = n.jsonChars ++ rest := by
    rw [hchars, List.cons_append]
    exact skipGap_cons (isGap_eq_false_of_numeral hc) _
  have hscan := scanNumber?_append h hrest
  unfold readValue
  rw [hgap]
  split
  -- no other value starts as a numeral does
  case h_7 =>
    rw [hscan, Option.map_some]
    simp only [List.length_append, Nat.add_sub_cancel, List.take_left]
  all_goals
    next hother =>
      rw [hchars, List.cons_append] at hother
      rw [(List.cons.inj hother).1] at hc
      exact absurd hc (by decide)

/-! ### Indented values, character by character -/

section

variable (depth : Nat)

theorem toList_indented_text (s : String) :
    (indented depth (.string (some s))).toList = '"' :: (s.toList.flatMap escape ++ ['"']) := by
  rw [indented, quoteText, Option.getD_some, toList_quote]

theorem toList_indented_array_nil : (indented depth (.array [])).toList = ['[', ']'] := by
  rw [indented, if_pos List.isEmpty_nil]
  rfl

theorem toList_indented_object_nil :
    (indented depth (.object [])).toList = ['\x7b', '\x7d'] := by
  rw [indented, if_pos List.isEmpty_nil]
  rfl

theorem toList_indented_array {items : List Json} (h : items ≠ []) :
    (indented depth (.array items)).toList =
      '[' :: ((newLine (depth + 2)).toList ++ ((indentedItems (depth + 2) items).toList ++
        ((newLine depth).toList ++ [']']))) := by
  rw [indented, if_neg (by rwa [List.isEmpty_iff])]
  simp only [String.toList_append, List.append_assoc]
  rfl

theorem toList_indented_object {fields : List (Option String × Json)} (h : fields ≠ []) :
    (indented depth (.object fields)).toList =
      '\x7b' :: ((newLine (depth + 2)).toList ++ ((indentedFields (depth + 2) fields).toList ++
        ((newLine depth).toList ++ ['\x7d']))) := by
  rw [indented, if_neg (by rwa [List.isEmpty_iff])]
  simp only [String.toList_append, List.append_assoc]
  rfl

theorem toList_indentedItems_cons (item : Json) {others : List Json} (h : others ≠ []) :
    (indentedItems depth (item :: others)).toList =
      (indented depth item).toList ++ ',' :: ((newLine depth).toList ++
        (indentedItems depth others).toList) := by
  rw [indentedItems.eq_3 depth item others h]
  simp only [String.toList_append, List.append_assoc]
  rfl

theorem toList_indentedFields_singleton (key : String) (value : Json) :
    (indentedFields depth [(some key, value)]).toList =
      '"' :: (key.toList.flatMap escape ++ '"' :: ':' :: ' ' :: (indented depth value).toList) := by
  rw [indentedFields, quoteText, Option.getD_some]
  simp only [String.toList_append, toList_quote, List.append_assoc, List.cons_append]
  rfl

theorem toList_indentedFields_cons (field : Option String × Json)
    {others : List (Option String × Json)} (h : others ≠ []) :
    (indentedFields depth (field :: others)).toList =
      (indentedFields depth [field]).toList ++ ',' :: ((newLine depth).toList ++
        (indentedFields depth others).toList) := by
  rw [indentedFields.eq_3 depth field.1 field.2 others h, indentedFields]
  simp only [String.toList_append, List.append_assoc]
  rfl

/-- The first character of an indented value is no gap and closes nothing. -/
theorem Writable.exists_cons_indented {v : Json} (h : v.Writable) :
    ∃ c cs, (indented depth v).toList = c :: cs ∧ isGap c = false ∧ c ≠ ']' := by
  cases h with
  | null => exact ⟨'n', ['u', 'l', 'l'], by rw [indented]; rfl, rfl, by decide⟩
  | bool value =>
    cases value with
    | false => exact ⟨'f', ['a', 'l', 's', 'e'], by rw [indented]; rfl, rfl, by decide⟩
    | true => exact ⟨'t', ['r', 'u', 'e'], by rw [indented]; rfl, rfl, by decide⟩
  | number h =>
    obtain ⟨c, cs, hchars, hc⟩ := exists_cons_jsonChars h
    refine ⟨c, cs, ?_, isGap_eq_false_of_numeral hc, ?_⟩
    · rw [indented, String.toList_ofList, hchars]
    · rintro rfl
      exact absurd hc (by decide)
  | text s => exact ⟨_, _, toList_indented_text depth s, rfl, by decide⟩
  | @array items _ =>
    by_cases hitems : items = []
    · exact ⟨'[', [']'], hitems ▸ toList_indented_array_nil depth, rfl, by decide⟩
    · exact ⟨_, _, toList_indented_array depth hitems, rfl, by decide⟩
  | @object fields _ _ =>
    by_cases hfields : fields = []
    · exact ⟨'\x7b', ['\x7d'], hfields ▸ toList_indented_object_nil depth, rfl, by decide⟩
    · exact ⟨_, _, toList_indented_object depth hfields, rfl, by decide⟩

end

theorem exists_cons_indentedItems {items : List Json} (hne : items ≠ [])
    (h : ∀ item ∈ items, item.Writable) (depth : Nat) :
    ∃ c cs, (indentedItems depth items).toList = c :: cs ∧ isGap c = false ∧ c ≠ ']' := by
  obtain ⟨item, others, rfl⟩ := List.exists_cons_of_ne_nil hne
  obtain ⟨c, cs, hchars, hc⟩ := (h item List.mem_cons_self).exists_cons_indented depth
  by_cases hothers : others = []
  · subst hothers
    rw [indentedItems, hchars]
    exact ⟨c, cs, rfl, hc⟩
  · rw [toList_indentedItems_cons depth item hothers, hchars]
    exact ⟨c, _, rfl, hc⟩

theorem exists_cons_indentedFields {fields : List (Option String × Json)} (hne : fields ≠ [])
    (hkeys : ∀ field ∈ fields, field.1.isSome = true) (depth : Nat) :
    ∃ cs, (indentedFields depth fields).toList = '"' :: cs := by
  obtain ⟨⟨key, value⟩, others, rfl⟩ := List.exists_cons_of_ne_nil hne
  obtain ⟨key, rfl⟩ := Option.isSome_iff_exists.mp (hkeys (key, value) List.mem_cons_self)
  have hfield := toList_indentedFields_singleton depth key value
  by_cases hothers : others = []
  · subst hothers
    exact ⟨_, hfield⟩
  · rw [toList_indentedFields_cons depth _ hothers, hfield]
    exact ⟨_, rfl⟩

theorem endsNumeral_newLine (depth : Nat) (rest : List Char) :
    EndsNumeral ((newLine depth).toList ++ rest) := by
  intro c hc
  rw [newLine, String.toList_ofList] at hc
  obtain rfl : '\n' = c := Option.some.inj hc
  decide

theorem skipGap_newLine (depth : Nat) (c : Char) (hc : isGap c = false) (rest : List Char) :
    skipGap ((newLine depth).toList ++ c :: rest) = c :: rest := by
  rw [skipGap_append isGap_of_mem_newLine, skipGap_cons hc]

/-- The items of an array are read back up to the bracket on the line behind them. -/
theorem readItems_indentedItems {items : List Json} (hne : items ≠ [])
    (h : ∀ item ∈ items, item.ReadsBack) (depth outer fuel : Nat) (rest : List Char)
    (hfuel : 2 * (indentedItems depth items).toList.length + 1 ≤ fuel) :
    readItems fuel ((indentedItems depth items).toList ++ ((newLine outer).toList ++ ']' :: rest)) =
      some (items, rest) := by
  -- on the items; the rest of them is read with one step less
  induction items generalizing fuel with
  | nil => exact absurd rfl hne
  | cons item others ih =>
    obtain ⟨fuel, rfl⟩ : ∃ n, fuel = n + 1 := ⟨fuel - 1, by omega⟩
    have hitem : item.ReadsBack := h item List.mem_cons_self
    rw [readItems]
    by_cases hothers : others = []
    · subst hothers
      rw [indentedItems] at hfuel ⊢
      rw [hitem depth fuel _ (endsNumeral_newLine outer _) (by omega), Option.bind_some]
      simp only [skipGap_newLine outer ']' rfl]
    · have hih := ih hothers (List.forall_mem_of_forall_mem_cons h) fuel
      rw [toList_indentedItems_cons depth item hothers] at hfuel ⊢
      simp only [List.length_append, List.length_cons] at hfuel
      simp only [List.append_assoc, List.cons_append]
      rw [hitem depth fuel _ (by rintro _ ⟨⟩; decide) (by omega), Option.bind_some]
      simp only [skipGap_cons (show isGap ',' = false from rfl), readItems_gap isGap_of_mem_newLine]
      rw [hih (by omega), Option.map_some]

/-- Behind one field stands the closing brace, or a comma and the other fields. -/
theorem readFields_field (key : String) {value : Json} (hvalue : value.ReadsBack)
    {depth fuel : Nat} (hfuel : 2 * (indented depth value).toList.length ≤ fuel)
    {behind : List Char} (hends : EndsNumeral behind) (rest : List Char) :
    let read := readFields (fuel + 1) ((indentedFields depth [(some key, value)]).toList ++ behind)
    (skipGap behind = '\x7d' :: rest → read = some ([(some key, value)], rest)) ∧
      (skipGap behind = ',' :: rest →
        read = (readFields fuel rest).map fun (fields, rest) => ((some key, value) :: fields, rest)) := by
  intro read
  have hblank : ∀ cs, readValue fuel (' ' :: cs) = readValue fuel cs := fun cs =>
    @readValue_gap [' '] (by simp [isGap]) fuel cs
  have hread := hvalue depth fuel behind hends hfuel
  constructor
  all_goals
    intro hbehind
    unfold read
    rw [readFields, toList_indentedFields_singleton]
    simp only [List.append_assoc, List.cons_append, skipGap_cons (show isGap '"' = false from rfl),
      readChars_flatMap_escape, Option.bind_some, skipGap_cons (show isGap ':' = false from rfl),
      hblank, hread, hbehind]

theorem length_le_indentedFields (depth : Nat) (key : String) (value : Json) :
    (indented depth value).toList.length ≤
      (indentedFields depth [(some key, value)]).toList.length := by
  rw [toList_indentedFields_singleton]
  simp only [List.length_append, List.length_cons]
  omega

/-- The fields of an object are read back up to the brace on the line behind them. -/
theorem readFields_indentedFields {fields : List (Option String × Json)} (hne : fields ≠ [])
    (hkeys : ∀ field ∈ fields, field.1.isSome = true) (h : ∀ field ∈ fields, field.2.ReadsBack)
    (depth outer fuel : Nat) (rest : List Char)
    (hfuel : 2 * (indentedFields depth fields).toList.length + 1 ≤ fuel) :
    readFields fuel
        ((indentedFields depth fields).toList ++ ((newLine outer).toList ++ '\x7d' :: rest)) =
      some (fields, rest) := by
  -- on the fields; the rest of them is read with one step less
  induction fields generalizing fuel with
  | nil => exact absurd rfl hne
  | cons field others ih =>
    obtain ⟨fuel, rfl⟩ : ∃ n, fuel = n + 1 := ⟨fuel - 1, by omega⟩
    obtain ⟨key, value⟩ := field
    have hvalue : value.ReadsBack := h (key, value) List.mem_cons_self
    obtain ⟨key, rfl⟩ := Option.isSome_iff_exists.mp (hkeys (key, value) List.mem_cons_self)
    have hlength := length_le_indentedFields depth key value
    by_cases hothers : others = []
    · subst hothers
      have hstep : 2 * (indented depth value).toList.length ≤ fuel := by omega
      have hends := endsNumeral_newLine outer ('\x7d' :: rest)
      exact (readFields_field key hvalue hstep hends rest).1 (skipGap_newLine outer '\x7d' rfl rest)
    · have hih := ih hothers (List.forall_mem_of_forall_mem_cons hkeys)
        (List.forall_mem_of_forall_mem_cons h) fuel
      rw [toList_indentedFields_cons depth _ hothers] at hfuel ⊢
      simp only [List.length_append, List.length_cons] at hfuel
      have hstep : 2 * (indented depth value).toList.length ≤ fuel := by omega
      have hcomma : ∀ behind, EndsNumeral (',' :: behind) := by
        rintro behind _ ⟨⟩
        decide
      rw [List.append_assoc, List.cons_append, List.append_assoc,
        (readFields_field key hvalue hstep (hcomma _) _).2 (skipGap_cons rfl _),
        readFields_gap isGap_of_mem_newLine, hih (by omega), Option.map_some]

/-! ### One constructor after the other -/

theorem behind?_append (word rest : List Char) : behind? word (word ++ rest) = some rest := by
  rw [behind?, if_pos (List.isPrefixOf_iff_prefix.mpr (List.prefix_append word rest)),
    List.drop_left]

section

variable (depth fuel : Nat) (rest : List Char)

theorem readValue_null :
    readValue (fuel + 1) ((indented depth .null).toList ++ rest) = some (.null, rest) := by
  have hchars : (indented depth .null).toList = 'n' :: "ull".toList := by
    rw [indented]
    rfl
  rw [hchars, readValue, List.cons_append, skipGap_cons rfl]
  simp only [behind?_append, Option.map_some]

theorem readValue_bool (value : Bool) :
    readValue (fuel + 1) ((indented depth (.bool value)).toList ++ rest) =
      some (.bool value, rest) := by
  cases value with
  | true =>
    have hchars : (indented depth (.bool true)).toList = 't' :: "rue".toList := by
      rw [indented]
      rfl
    rw [hchars, readValue, List.cons_append, skipGap_cons rfl]
    simp only [behind?_append, Option.map_some]
  | false =>
    have hchars : (indented depth (.bool false)).toList = 'f' :: "alse".toList := by
      rw [indented]
      rfl
    rw [hchars, readValue, List.cons_append, skipGap_cons rfl]
    simp only [behind?_append, Option.map_some]

theorem readValue_number {n : Numeral} (h : n.IsJson) (hrest : EndsNumeral rest) :
    readValue (fuel + 1) ((indented depth (.number n.jsonChars)).toList ++ rest) =
      some (.number n.jsonChars, rest) := by
  rw [indented, String.toList_ofList]
  exact readValue_jsonChars h hrest fuel

theorem readValue_text (s : String) :
    readValue (fuel + 1) ((indented depth (.string (some s))).toList ++ rest) =
      some (.string (some s), rest) := by
  rw [toList_indented_text, readValue, List.cons_append, skipGap_cons rfl]
  simp only [List.append_assoc, List.singleton_append, readChars_flatMap_escape, Option.map_some]

theorem readValue_array {items : List Json} (h : ∀ item ∈ items, item.Writable)
    (hitems : ∀ item ∈ items, item.ReadsBack)
    (hfuel : 2 * (indented depth (.array items)).toList.length ≤ fuel + 1) :
    readValue (fuel + 1) ((indented depth (.array items)).toList ++ rest) =
      some (.array items, rest) := by
  by_cases hne : items = []
  · subst hne
    rw [toList_indented_array_nil, readValue, List.cons_append, skipGap_cons rfl]
    rfl
  · rw [toList_indented_array depth hne] at hfuel ⊢
    simp only [List.length_append, List.length_cons, List.length_nil] at hfuel
    have hread := readItems_indentedItems hne hitems (depth + 2) depth fuel rest (by omega)
    obtain ⟨c, cs, hcs, hgap, hclose⟩ := exists_cons_indentedItems hne h (depth + 2)
    rw [hcs, List.cons_append] at hread
    rw [readValue, List.cons_append, skipGap_cons rfl]
    simp only [List.append_assoc, skipGap_append isGap_of_mem_newLine, hcs, List.cons_append,
      List.nil_append, skipGap_cons hgap]
    -- what stands behind the bracket does not close the array
    split
    next hempty => exact absurd (List.cons.inj hempty).1 hclose
    next => rw [hread, Option.map_some]

theorem readValue_object {fields : List (Option String × Json)}
    (hkeys : ∀ field ∈ fields, field.1.isSome = true) (hfields : ∀ field ∈ fields, field.2.ReadsBack)
    (hfuel : 2 * (indented depth (.object fields)).toList.length ≤ fuel + 1) :
    readValue (fuel + 1) ((indented depth (.object fields)).toList ++ rest) =
      some (.object fields, rest) := by
  by_cases hne : fields = []
  · subst hne
    rw [toList_indented_object_nil, readValue, List.cons_append, skipGap_cons rfl]
    rfl
  · rw [toList_indented_object depth hne] at hfuel ⊢
    simp only [List.length_append, List.length_cons, List.length_nil] at hfuel
    have hread := readFields_indentedFields hne hkeys hfields (depth + 2) depth fuel rest (by omega)
    obtain ⟨cs, hcs⟩ := exists_cons_indentedFields hne hkeys (depth + 2)
    rw [hcs, List.cons_append] at hread
    rw [readValue, List.cons_append, skipGap_cons rfl]
    simp only [List.append_assoc, skipGap_append isGap_of_mem_newLine, hcs, List.cons_append,
      List.nil_append, skipGap_cons (show isGap '"' = false from rfl)]
    split
    next hempty => exact absurd (List.cons.inj hempty).1 (by decide)
    next => rw [hread, Option.map_some]

end

/-- No value is written without a character, so there is always a step to start with. -/
theorem Writable.readsBack_of_succ {v : Json} (hv : v.Writable)
    (h : ∀ depth fuel rest, EndsNumeral rest → 2 * (indented depth v).toList.length ≤ fuel + 1 →
      readValue (fuel + 1) ((indented depth v).toList ++ rest) = some (v, rest)) :
    v.ReadsBack := by
  intro depth fuel rest hrest hfuel
  obtain ⟨c, cs, hchars, -⟩ := hv.exists_cons_indented depth
  have hpos : 0 < (indented depth v).toList.length := by
    rw [hchars]
    exact Nat.succ_pos _
  obtain ⟨fuel, rfl⟩ : ∃ n, fuel = n + 1 := ⟨fuel - 1, by omega⟩
  exact h depth fuel rest hrest hfuel

/-- Values that can be written are read back, by induction on how they are built. -/
theorem Writable.readsBack {v : Json} (h : v.Writable) : v.ReadsBack := by
  induction h with
  | null =>
    apply Writable.null.readsBack_of_succ
    exact fun depth fuel rest _ _ => readValue_null depth fuel rest
  | bool value =>
    apply (Writable.bool value).readsBack_of_succ
    exact fun depth fuel rest _ _ => readValue_bool depth fuel rest value
  | number h =>
    apply (Writable.number h).readsBack_of_succ
    exact fun depth fuel rest hrest _ => readValue_number depth fuel rest h hrest
  | text s =>
    apply (Writable.text s).readsBack_of_succ
    exact fun depth fuel rest _ _ => readValue_text depth fuel rest s
  | array h ih =>
    apply (Writable.array h).readsBack_of_succ
    exact fun depth fuel rest _ hfuel => readValue_array depth fuel rest h ih hfuel
  | object hkeys h ih =>
    apply (Writable.object hkeys h).readsBack_of_succ
    exact fun depth fuel rest _ hfuel => readValue_object depth fuel rest hkeys ih hfuel

/-- A value that can be written is read back from its indented form. -/
theorem ofText?_pretty {v : Json} (h : v.Writable) : ofText? (pretty v) = some v := by
  have hread := h.readsBack 0 (2 * (pretty v).toList.length + 2) [] (by rintro _ ⟨⟩)
    (Nat.le_add_right _ _)
  rw [List.append_nil] at hread
  unfold ofText?
  rw [show (pretty v).toList = (indented 0 v).toList from rfl] at *
  simp only [hread]
  rfl

/-! ## 4. What is written -/

theorem writable_ofNat (n : Nat) : (ofNat n).Writable := by
  rw [ofNat, ← Numeral.jsonChars_toDigits]
  exact .number (Numeral.isJson_toDigits n)

/-- Every double can be written; what is no finite number is written as `null`. -/
theorem writable_ofFloat (x : Float) : (ofFloat x).Writable := by
  unfold ofFloat
  split
  next hfinite =>
    obtain ⟨negative, mantissa, exponent, -, hchars⟩ := exists_numeral_write hfinite
    rw [hchars]
    exact .number ((Numeral.isJson_ofMagnitude mantissa exponent).signed negative)
  next => exact .null

theorem writable_ofList {α : Type} {encode : α → Json} {xs : List α}
    (h : ∀ x ∈ xs, (encode x).Writable) : (ofList encode xs).Writable :=
  .array (List.forall_mem_map.mpr h)

theorem writable_record {fields : List (String × Json)}
    (h : ∀ field ∈ fields, field.2.Writable) : (record fields).Writable :=
  .object (List.forall_mem_map.mpr fun _ _ => rfl) (List.forall_mem_map.mpr h)

end TextScore.Json
