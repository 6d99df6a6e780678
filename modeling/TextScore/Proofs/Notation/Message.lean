import Mathlib
import TextScore.Notation.Diagnostic
import TextScore.Proofs.Json.Numeral

/-!
# Message — the word or the number that a message is about

A message of each kind is one sentence with a few places in it.  In the first of them stands what
the message is about: the word of the text that is at fault, in quotes, or the number of a measure.
All messages are in the relation below with that word or number, so it is enough to look at what a
fault is about to know what its message names.

The number of a measure is the first number in its message, and can be raised there without a look
at the rest.
-/

namespace TextScore

/-! ## 1. The sentence of each kind -/

/-- A message of this kind is about this word, or about the measure with this number. -/
inductive Quotes : DiagnosticKind → String → String → Prop
  | malformedTimeSignature (text : String) :
      Quotes .malformedTimeSignature text
        (s!"Malformed time signature '{text}' (expected <beats>/<beat-type> with " ++
          "positive numbers); using 4/4")
  | danglingToken (token : String) :
      Quotes .danglingToken token
        s!"Dangling token '{token}' has no partner (expected <pitch|R> <duration> pairs)"
  | invalidPitch (symbol : String) :
      Quotes .invalidPitch symbol
        (s!"Invalid pitch '{symbol}' (expected a letter A-G, " ++
          "optional # or b, and an octave 0-9, or R for a rest)")
  | invalidPair (symbol duration : String) :
      Quotes .invalidPitch symbol
        (s!"Invalid pitch '{symbol}' (expected a letter A-G, " ++
          "optional # or b, and an octave 0-9, or R for a rest)" ++
          s!" and invalid duration '{duration}'")
  | invalidDuration (duration symbol : String) :
      Quotes .invalidDuration duration
        (s!"Invalid duration '{duration}' after '{symbol}' " ++ "(expected one of w, h, q, e, s)")
  | overfull (number beats capacity signature : String) :
      Quotes .overfull number
        ("Measure " ++ number ++ " is " ++ "overfull" ++ ": " ++ beats ++ " of " ++ capacity ++
          " beats in " ++ signature)
  | underfull (number beats capacity signature : String) :
      Quotes .underfull number
        ("Measure " ++ number ++ " is " ++ "underfull" ++ ": " ++ beats ++ " of " ++ capacity ++
          " beats in " ++ signature)
  /-- The one message that is about the text as a whole. -/
  | noValidNotes : Quotes .noValidNotes "" "No valid notes found"

namespace Fault

/-- What a fault is about: the word that is wrong, or the measure, by its number. -/
def subject : Fault → String
  | malformedTimeSignature text => String.ofList text
  | danglingToken token => String.ofList token
  | invalidPitch symbol _ => String.ofList symbol
  | invalidDuration duration _ => String.ofList duration
  | misfit _ measure _ _ => toString measure
  | noValidNotes => ""

/-- Every fault is put into the words of its kind, and these name what it is about. -/
theorem quotes_message (fault : Fault) : Quotes fault.kind fault.subject fault.message := by
  unfold message
  match fault with
  | malformedTimeSignature text => exact .malformedTimeSignature _
  | danglingToken token => exact .danglingToken _
  | invalidPitch symbol none => exact .invalidPitch _
  | invalidPitch symbol (some duration) =>
    exact .invalidPair (String.ofList symbol) (String.ofList duration)
  | invalidDuration duration symbol => exact .invalidDuration _ (String.ofList symbol)
  | misfit .over measure beats signature =>
    exact .overfull _ (Decimal.inMessage beats) (toString signature.beats.toNat) signature.name
  | misfit .under measure beats signature =>
    exact .underfull _ (Decimal.inMessage beats) (toString signature.beats.toNat) signature.name
  | noValidNotes => exact .noValidNotes

end Fault

namespace Notation

/-! ## 2. The number of a measure -/

/-- The message with the first number in it raised. -/
def raiseNumber (count : ℕ) (message : String) : String :=
  let before := message.toList.takeWhile fun c => !c.isDigit
  let (digits, behind) := Decimal.takeDigits (message.toList.dropWhile fun c => !c.isDigit)
  String.ofList (before ++ (Nat.toDigits 10 (Nat.ofDigitChars 10 digits 0 + count) ++ behind))

theorem raiseNumber_ofList {before behind : List Char} (hbefore : ∀ c ∈ before, c.isDigit = false)
    (hbehind : ∀ c ∈ behind.head?, c.isDigit = false) (count number : ℕ) :
    raiseNumber count (String.ofList (before ++ (Nat.toDigits 10 number ++ behind))) =
      String.ofList (before ++ (Nat.toDigits 10 (number + count) ++ behind)) := by
  have hskip : ∀ c ∈ before, (!c.isDigit) = true := by simpa using hbefore
  have hdigits : ∀ c ∈ Nat.toDigits 10 number, c.isDigit = true := fun c hc =>
    Nat.isDigit_of_mem_toDigits (by decide) le_rfl hc
  have hvalue : Nat.ofDigitChars 10 (Nat.toDigits 10 number) 0 = number :=
    Nat.ofDigitChars_toDigits (by decide) le_rfl
  -- a number has a first digit, at which the text before it ends
  obtain ⟨d, ds, hcons⟩ : ∃ d ds, Nat.toDigits 10 number = d :: ds :=
    List.exists_cons_of_ne_nil Nat.toDigits_ne_nil
  have hd : ¬ (!d.isDigit) = true := by
    have := hdigits d (hcons ▸ List.mem_cons_self)
    simpa using this
  have hstart : (Nat.toDigits 10 number ++ behind).takeWhile (fun c => !c.isDigit) = [] ∧
      (Nat.toDigits 10 number ++ behind).dropWhile (fun c => !c.isDigit) =
        Nat.toDigits 10 number ++ behind := by
    rw [hcons]
    exact ⟨List.takeWhile_cons_of_neg hd, List.dropWhile_cons_of_neg hd⟩
  unfold raiseNumber
  rw [String.toList_ofList, List.takeWhile_append_of_pos hskip,
    List.dropWhile_append_of_pos hskip, hstart.1, hstart.2,
    Decimal.takeDigits_append hdigits hbehind, List.append_nil]
  simp only [hvalue]

example : raiseNumber 2 "Measure 9 is overfull: 5 of 4 beats in 4/4" =
    "Measure 11 is overfull: 5 of 4 beats in 4/4" := by decide

/-- Behind the number of a measure its message goes on with a blank. -/
theorem exists_ofList_message (word figure capacity signature : String) :
    ∃ behind : List Char, (∀ c ∈ behind.head?, c.isDigit = false) ∧ ∀ measure : ℕ,
      s!"Measure {measure} is {word}: {figure} of {capacity} beats in " ++ signature =
        String.ofList ("Measure ".toList ++ (Nat.toDigits 10 measure ++ behind)) := by
  refine ⟨" is ".toList ++ (word ++ ": " ++ figure ++ " of " ++ capacity ++ " beats in " ++
    signature).toList, ?_, ?_⟩
  · intro c hc
    obtain rfl : ' ' = c := Option.some.inj hc
    rfl
  · intro measure
    have hnumber : (toString measure).toList = Nat.toDigits 10 measure := Nat.toList_repr
    apply String.toList_injective
    rw [← hnumber, String.toList_ofList]
    simp only [String.toList_append, List.append_assoc]
    rfl

/-- The first number in the message on a misfit is that of the measure. -/
theorem exists_message_misfit (way : Misfit) (beats : Float) (signature : TimeSignature) :
    ∃ behind : List Char, (∀ c ∈ behind.head?, c.isDigit = false) ∧ ∀ measure,
      (Fault.misfit way measure beats signature).message =
        String.ofList ("Measure ".toList ++ (Nat.toDigits 10 measure ++ behind)) := by
  unfold Fault.message
  exact exists_ofList_message _ _ (toString signature.beats.toNat) _

theorem raiseNumber_message_misfit (count measure : ℕ) (way : Misfit) (beats : Float)
    (signature : TimeSignature) :
    raiseNumber count (Fault.misfit way measure beats signature).message =
      (Fault.misfit way (measure + count) beats signature).message := by
  obtain ⟨behind, hbehind, hmessage⟩ := exists_message_misfit way beats signature
  rw [hmessage, hmessage, raiseNumber_ofList (by simp) hbehind]

end Notation

end TextScore
