import Mathlib
import TextScore.Json.Basic
import TextScore.Json.Read
import TextScore.Proofs.Decimal.Shortest

/-!
# Numeral — JSON numerals are scanned as they are written

A numeral that has the parts JSON asks for is scanned whole, whatever follows it that could not go on
with a numeral.  Natural numbers and finite doubles are only ever written as such numerals.
-/

namespace TextScore.Decimal

/-! ## 1. Scanning parts -/

namespace Numeral

def fractionChars (fraction : Option (List Char)) : List Char :=
  fraction.elim [] ('.' :: ·)

/-- The exponent behind a small `e`, always with a sign. -/
def exponentChars (exponent : Option (Bool × List Char)) : List Char :=
  exponent.elim [] fun e => 'e' :: (if e.1 then '-' else '+') :: e.2

@[simp] theorem fractionChars_none : fractionChars none = [] := rfl

@[simp] theorem fractionChars_some (digits : List Char) :
    fractionChars (some digits) = '.' :: digits := rfl

@[simp] theorem exponentChars_none : exponentChars none = [] := rfl

@[simp] theorem exponentChars_some (negative : Bool) (digits : List Char) :
    exponentChars (some (negative, digits)) = 'e' :: (if negative then '-' else '+') :: digits := rfl

def jsonChars (n : Numeral) : List Char :=
  (if n.negative then ['-'] else []) ++ (n.whole ++ (fractionChars n.fraction ++
    exponentChars n.exponent))

/-- Every part that is there has digits, and none of the whole ones is a leading zero. -/
structure IsJson (n : Numeral) : Prop where
  whole : Digits n.whole
  eq_nil_of_zero : ∀ rest, n.whole = '0' :: rest → rest = []
  fraction : ∀ digits ∈ n.fraction, Digits digits
  exponent : ∀ e ∈ n.exponent, Digits e.2

end Numeral

/-- A numeral that has ended stays as it is in front of this text. -/
def EndsNumeral (rest : List Char) : Prop :=
  ∀ c ∈ rest.head?, c.isDigit = false ∧ c ≠ '.' ∧ c ≠ 'e' ∧ c ≠ 'E'

namespace Numeral

theorem scanExponent?_append {exponent : Option (Bool × List Char)} {rest : List Char}
    (hexponent : ∀ e ∈ exponent, Digits e.2) (hrest : EndsNumeral rest) :
    scanExponent? (exponentChars exponent ++ rest) = some (exponent, rest) := by
  cases exponent with
  | none =>
    cases rest with
    | nil => rfl
    | cons c rest =>
      obtain ⟨-, -, he, hE⟩ := hrest c rfl
      rw [exponentChars_none, List.nil_append]
      unfold scanExponent?
      split
      next h => exact absurd (List.cons.inj h).1 he
      next h => exact absurd (List.cons.inj h).1 hE
      next => rfl
  | some e =>
    obtain ⟨negative, digits⟩ := e
    have hdigits : Digits digits := hexponent _ rfl
    have htake : takeDigits (digits ++ rest) = (digits, rest) :=
      takeDigits_append hdigits.digit fun c hc => (hrest c hc).1
    have hsign : takeSign ((if negative then '-' else '+') :: (digits ++ rest)) =
        (negative, digits ++ rest) := by
      cases negative <;> rfl
    simp only [exponentChars_some, List.cons_append, scanExponent?, hsign, htake,
      List.isEmpty_eq_false_iff.mpr hdigits.ne_nil, Bool.false_eq_true, if_false]

theorem scanUnsigned?_append {n : Numeral} (h : n.IsJson) {rest : List Char}
    (hrest : EndsNumeral rest) (negative : Bool) :
    scanUnsigned? negative
        (n.whole ++ (fractionChars n.fraction ++ (exponentChars n.exponent ++ rest))) =
      some ({ n with negative }, rest) := by
  have hexponent := scanExponent?_append h.exponent hrest
  obtain ⟨sign, whole, fraction, exponent⟩ := n
  simp only at hexponent ⊢
  generalize htail : exponentChars exponent ++ rest = tail at hexponent ⊢
  -- behind the digits stands the exponent, or what ends the numeral
  have hends : ∀ c ∈ tail.head?, c.isDigit = false ∧ c ≠ '.' := by
    intro c hc
    cases exponent with
    | none =>
      rw [← htail] at hc
      exact ⟨(hrest c hc).1, (hrest c hc).2.1⟩
    | some e =>
      rw [← htail] at hc
      obtain rfl : 'e' = c := Option.some.inj hc
      decide
  cases fraction with
  | none =>
    have htake : takeDigits (whole ++ tail) = (whole, tail) :=
      takeDigits_append h.whole.digit fun c hc => (hends c hc).1
    unfold scanUnsigned?
    simp only [fractionChars_none, List.nil_append, htake]
    split
    next => exact absurd rfl (hends '.' rfl).2
    next => rw [hexponent, Option.map_some]
  | some digits =>
    have hdigits : Digits digits := h.fraction _ rfl
    have hwhole : takeDigits (whole ++ '.' :: (digits ++ tail)) = (whole, '.' :: (digits ++ tail)) :=
      takeDigits_append h.whole.digit (by simp)
    have hfraction : takeDigits (digits ++ tail) = (digits, tail) :=
      takeDigits_append hdigits.digit fun c hc => (hends c hc).1
    unfold scanUnsigned?
    simp only [fractionChars_some, List.cons_append, hwhole, hfraction, hexponent, Option.map_some]

end Numeral

/-! ## 2. What numbers are written as -/

namespace Numeral

/-- Digits with the point after `point` of them. -/
def positional (digits : List Char) (point : Int) : Numeral :=
  if point ≤ 0 then ⟨false, ['0'], some (List.replicate (-point).toNat '0' ++ digits), none⟩
  else if digits.length ≤ point then
    ⟨false, digits ++ List.replicate (point - digits.length).toNat '0', some ['0'], none⟩
  else ⟨false, digits.take point.toNat, some (digits.drop point.toNat), none⟩

/-- Digits with the point after the first of them, and a power of ten. -/
def scientific (digits : List Char) (magnitude : Int) : Numeral :=
  let fraction := match digits.tail with
    | [] => none
    | rest => some rest
  ⟨false, digits.take 1, fraction, some (decide (magnitude < 0), Nat.toDigits 10 magnitude.natAbs)⟩

/-- A positive number in the style of JSON. -/
def ofExpansion (d : Expansion) : Numeral :=
  let digits := Nat.toDigits 10 d.digits
  let point := d.exponent + digits.length
  if -5 ≤ point - 1 ∧ point - 1 ≤ 15 then positional digits point else scientific digits (point - 1)

def ofMagnitude (mantissa : Nat) (exponent : Int) : Numeral :=
  if mantissa = 0 then ⟨false, ['0'], some ['0'], none⟩
  else ofExpansion (shortest .toEven mantissa exponent)

theorem isJson_of_parts {negative : Bool} {whole : List Char} {fraction : Option (List Char)}
    {exponent : Option (Bool × List Char)} (hwhole : Digits whole)
    (hlead : whole.head? = some '0' → whole = ['0']) (hfraction : ∀ digits ∈ fraction, Digits digits)
    (hexponent : ∀ e ∈ exponent, Digits e.2) : IsJson ⟨negative, whole, fraction, exponent⟩ := by
  refine ⟨hwhole, fun rest hrest => ?_, hfraction, hexponent⟩
  have hrest' : whole = '0' :: rest := hrest
  have hzero := hlead (by rw [hrest', List.head?_cons])
  rw [hrest'] at hzero
  exact (List.cons.inj hzero).2

theorem isJson_point {whole fraction : List Char} (hwhole : Digits whole)
    (hlead : whole.head? = some '0' → whole = ['0']) (hfraction : Digits fraction) :
    IsJson ⟨false, whole, some fraction, none⟩ :=
  isJson_of_parts hwhole hlead (by rintro _ ⟨⟩; exact hfraction) (by rintro _ ⟨⟩)

theorem isJson_toDigits (n : Nat) : IsJson ⟨false, Nat.toDigits 10 n, none, none⟩ := by
  refine isJson_of_parts (digits_toDigits n) (fun hzero => ?_) (by rintro _ ⟨⟩) (by rintro _ ⟨⟩)
  obtain rfl | hn := Nat.eq_zero_or_pos n
  · rfl
  · exact absurd hzero (head_toDigits_ne hn)

theorem jsonChars_toDigits (n : Nat) :
    jsonChars ⟨false, Nat.toDigits 10 n, none, none⟩ = Nat.toDigits 10 n := by
  simp only [jsonChars, fractionChars_none, exponentChars_none, List.append_nil]
  rfl

theorem jsonChars_point (whole fraction : List Char) :
    jsonChars ⟨false, whole, some fraction, none⟩ = whole ++ '.' :: fraction := by
  simp only [jsonChars, fractionChars_some, exponentChars_none, List.append_nil]
  rfl

theorem jsonChars_positional (digits : List Char) (point : Int) :
    (positional digits point).jsonChars = jsonStyle.writePositional digits point := by
  unfold positional NumberStyle.writePositional
  split
  next => exact jsonChars_point _ _
  next =>
  split
  next => exact jsonChars_point _ _
  next => exact jsonChars_point _ _

theorem jsonChars_scientific (digits : List Char) (magnitude : Int) :
    (scientific digits magnitude).jsonChars = NumberStyle.writeScientific digits magnitude := by
  have hsign : (if decide (magnitude < 0) = true then '-' else '+') =
      if magnitude < 0 then '-' else '+' := by
    simp only [decide_eq_true_eq]
  unfold scientific NumberStyle.writeScientific
  simp only [jsonChars, exponentChars_some, hsign, List.append_assoc]
  cases digits.tail <;> rfl

theorem isJson_positional {digits : List Char} (hdigits : Digits digits) {point : Int}
    (hlead : 0 < point → digits.head? ≠ some '0') : (positional digits point).IsJson := by
  unfold positional
  split
  next =>
    have hfraction : Digits (List.replicate (-point).toNat '0' ++ digits) :=
      { ne_nil := List.append_ne_nil_of_right_ne_nil _ hdigits.ne_nil
        digit := List.forall_mem_append.mpr ⟨isDigit_of_mem_replicate, hdigits.digit⟩ }
    exact isJson_point ⟨by simp, by simp⟩ (fun _ => rfl) hfraction
  next hpoint =>
  have hfirst : digits.head? ≠ some '0' := hlead (Int.not_le.mp hpoint)
  split
  next =>
    have hwhole : Digits (digits ++ List.replicate (point - digits.length).toNat '0') :=
      hdigits.append isDigit_of_mem_replicate
    refine isJson_point hwhole (fun hzero => ?_) ⟨by simp, by simp⟩
    rw [List.head?_append_of_ne_nil _ hdigits.ne_nil] at hzero
    exact absurd hzero hfirst
  next hlong =>
    -- the point stands between two digits
    have htake : Digits (digits.take point.toNat) :=
      { ne_nil := by
          rw [ne_eq, List.take_eq_nil_iff, not_or]
          exact ⟨by omega, hdigits.ne_nil⟩
        digit := fun c hc => hdigits.digit c (List.mem_of_mem_take hc) }
    have hdrop : Digits (digits.drop point.toNat) :=
      { ne_nil := by
          rw [ne_eq, List.drop_eq_nil_iff]
          omega
        digit := fun c hc => hdigits.digit c (List.mem_of_mem_drop hc) }
    refine isJson_point htake (fun hzero => ?_) hdrop
    rw [List.head?_take, if_neg (by omega)] at hzero
    exact absurd hzero hfirst

theorem isJson_scientific {digits : List Char} (hdigits : Digits digits) (magnitude : Int) :
    (scientific digits magnitude).IsJson := by
  obtain ⟨first, others, rfl⟩ := List.exists_cons_of_ne_nil hdigits.ne_nil
  have hfirst : Digits [first] :=
    ⟨by simp, by simpa using hdigits.digit first List.mem_cons_self⟩
  refine isJson_of_parts hfirst (fun hzero => by simpa using hzero) ?_ ?_
  · intro fraction hfraction
    cases others with
    | nil => cases hfraction
    | cons second others =>
      obtain rfl := Option.some.inj hfraction
      exact ⟨List.cons_ne_nil _ _, fun c hc => hdigits.digit c (List.mem_cons_of_mem _ hc)⟩
  · rintro _ ⟨⟩
    exact digits_toDigits _

theorem jsonChars_ofMagnitude (mantissa : Nat) (exponent : Int) :
    (ofMagnitude mantissa exponent).jsonChars = jsonStyle.writeMagnitude mantissa exponent := by
  unfold ofMagnitude NumberStyle.writeMagnitude
  split
  next => rfl
  next =>
    unfold ofExpansion
    extract_lets digits point decimal digits' point' positional'
    by_cases hrange : -5 ≤ point - 1 ∧ point - 1 ≤ 15
    · have hstyle : positional' = true := decide_eq_true hrange
      rw [if_pos hrange, if_pos hstyle]
      exact jsonChars_positional digits point
    · have hstyle : ¬positional' = true := mt of_decide_eq_true hrange
      rw [if_neg hrange, if_neg hstyle]
      exact jsonChars_scientific digits (point - 1)

theorem isJson_ofMagnitude (mantissa : Nat) (exponent : Int) :
    (ofMagnitude mantissa exponent).IsJson := by
  unfold ofMagnitude ofExpansion
  split
  next => exact isJson_point ⟨by simp, by simp⟩ (fun _ => rfl) ⟨by simp, by simp⟩
  next =>
    extract_lets digits point
    split
    next hpositional =>
      apply isJson_positional (digits_toDigits _)
      intro hpoint
      obtain hpos | hnone := shortest_cases .toEven mantissa exponent
      · exact head_toDigits_ne hpos
      · -- nothing that is found stands seventeen places behind the point
        have hdigits : point = -16 := by
          simp only [point, digits, hnone]
          rfl
        omega
    next => exact isJson_scientific (digits_toDigits _) _

theorem negative_ofMagnitude (mantissa : Nat) (exponent : Int) :
    (ofMagnitude mantissa exponent).negative = false := by
  unfold ofMagnitude
  split
  next => rfl
  next =>
    unfold ofExpansion positional
    extract_lets digits point
    split
    · repeat' split
      all_goals rfl
    · rfl

theorem IsJson.signed {n : Numeral} (h : n.IsJson) (negative : Bool) :
    IsJson { n with negative } :=
  ⟨h.whole, h.eq_nil_of_zero, h.fraction, h.exponent⟩

end Numeral

/-- A finite double is written as a JSON numeral. -/
theorem exists_numeral_write {x : Float} (h : x.isFinite = true) :
    ∃ negative mantissa exponent, Binary64.ofFloat x = .finite negative mantissa exponent ∧
      (jsonStyle.write x).toList =
        Numeral.jsonChars { Numeral.ofMagnitude mantissa exponent with negative } := by
  obtain ⟨negative, mantissa, exponent, hbits⟩ := exists_finite_of_isFinite h
  have hmagnitude := Numeral.jsonChars_ofMagnitude mantissa exponent
  have hplain := Numeral.negative_ofMagnitude mantissa exponent
  refine ⟨negative, mantissa, exponent, hbits, ?_⟩
  unfold NumberStyle.write
  rw [hbits]
  simp only [String.toList_ofList, ← hmagnitude, Numeral.jsonChars, hplain]
  rfl

end TextScore.Decimal

namespace TextScore.Json

open Decimal

/-! ## 3. Scanning JSON numbers -/

theorem scanNumber?_of_scanUnsigned? {n : Numeral} (h : n.IsJson) {cs rest : List Char}
    (hscan : Numeral.scanUnsigned? n.negative cs = some (n, rest)) (hminus : cs.head? ≠ some '-') :
    scanNumber? ((if n.negative then ['-'] else []) ++ cs) = some (n, rest) := by
  have hfraction : n.fraction ≠ some [] := fun hnil => (h.fraction [] hnil).ne_nil rfl
  unfold scanNumber?
  cases hnegative : n.negative
  case' true =>
    rw [hnegative] at hscan
    simp only [if_true, List.singleton_append, hscan]
  case' false =>
    rw [hnegative] at hscan
    rw [if_neg Bool.false_ne_true, List.nil_append]
    split
    rename_i negative behind hparts
    split at hparts
    next => exact absurd rfl hminus
    obtain ⟨rfl, rfl⟩ := Prod.mk.inj hparts
    simp only [hscan]
  -- with or without a minus, the parts are those that JSON asks for
  all_goals
    refine if_pos ⟨?_, hfraction⟩
    split
    next hnil => exact absurd hnil h.whole.ne_nil
    next others hzero => exact List.isEmpty_iff.mpr (h.eq_nil_of_zero others hzero)
    next => rfl

/-- A JSON numeral starts with a digit or a minus. -/
theorem exists_cons_jsonChars {n : Numeral} (h : n.IsJson) :
    ∃ c cs, n.jsonChars = c :: cs ∧ (c.isDigit = true ∨ c = '-') := by
  obtain ⟨first, others, hwhole⟩ := List.exists_cons_of_ne_nil h.whole.ne_nil
  have hfirst : first.isDigit = true := h.whole.digit first (hwhole ▸ List.mem_cons_self)
  unfold Numeral.jsonChars
  rw [hwhole]
  cases n.negative with
  | true => exact ⟨_, _, rfl, .inr rfl⟩
  | false => exact ⟨_, _, rfl, .inl hfirst⟩

/-- A JSON numeral is scanned whole in front of anything that ends it. -/
theorem scanNumber?_append {n : Numeral} (h : n.IsJson) {rest : List Char}
    (hrest : EndsNumeral rest) : scanNumber? (n.jsonChars ++ rest) = some (n, rest) := by
  have hscan := Numeral.scanUnsigned?_append h hrest n.negative
  obtain ⟨first, others, hwhole⟩ := List.exists_cons_of_ne_nil h.whole.ne_nil
  have hfirst : first.isDigit = true := h.whole.digit first (hwhole ▸ List.mem_cons_self)
  unfold Numeral.jsonChars
  rw [List.append_assoc, List.append_assoc, List.append_assoc]
  apply scanNumber?_of_scanUnsigned? h hscan
  rw [hwhole]
  rintro ⟨⟩
  cases hfirst

end TextScore.Json
