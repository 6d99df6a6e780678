import Mathlib
import TextScore.Proofs.Compile.Strict
import TextScore.Proofs.Notation.Account
import TextScore.Proofs.Notation.Coherence
import TextScore.Proofs.Notation.Columns

/-!
# SourceOrder — are diagnostics told in the order of the text?

Within a line the fault of the signature stands first, the faults of pairs follow from left to right,
and a word without a partner stands last.  That word is reported before the pairs, though: it comes too
early as soon as a pair of its line is bad as well, and nothing else is ever out of order.
-/

namespace TextScore

/-! ## 1. Places -/

namespace Diagnostic

/-- On an earlier line, or in an earlier column of the same line. -/
def Before (a b : Diagnostic) : Prop :=
  a.line < b.line ∨ a.line = b.line ∧ ∃ c ∈ a.column, ∃ d ∈ b.column, c < d

theorem Before.trans {a b c : Diagnostic} (hab : a.Before b) (hbc : b.Before c) : a.Before c := by
  rcases hab with hab | ⟨hab, i, hi, j, hj, hij⟩
  · rcases hbc with hbc | ⟨hbc, -⟩
    · exact Or.inl (hab.trans hbc)
    · exact Or.inl (hbc ▸ hab)
  · rcases hbc with hbc | ⟨hbc, j', hj', k, hk, hjk⟩
    · exact Or.inl (hab ▸ hbc)
    · obtain rfl : j = j' := Option.mem_unique hj hj'
      exact Or.inr ⟨hab.trans hbc, i, hi, k, hk, hij.trans hjk⟩

instance : Trans Before Before Before := ⟨Before.trans⟩

/-- Nothing stands before its own place. -/
theorem Before.place_ne {a b : Diagnostic} (h : a.Before b) :
    ¬ (a.line = b.line ∧ a.column = b.column) := by
  rintro ⟨hline, hcolumn⟩
  rcases h with hlt | ⟨-, i, hi, j, hj, hij⟩
  · exact hlt.ne hline
  · rw [hcolumn] at hi
    exact hij.ne (Option.mem_unique hi hj)

end Diagnostic

namespace Notation

open TextScore.Text

/-- In an earlier column. -/
def LocatedFault.Before (a b : LocatedFault) : Prop :=
  a.column < b.column

/-! ## 2. One line -/

/-- The faults of a line, by what they were found in. -/
structure LineFaults where
  signature : Option LocatedFault
  dangling : Option LocatedFault
  pairs : List LocatedFault

namespace LineFaults

variable (f : LineFaults)

/-- The faults in the order in which they are reported. -/
def reported : List LocatedFault :=
  f.signature.toList ++ (f.dangling.toList ++ f.pairs)

/-- The faults in the order in which they stand in the line. -/
def standing : List LocatedFault :=
  f.signature.toList ++ (f.pairs ++ f.dangling.toList)

/-- The last word is reported before pairs that stand before it. -/
def Overtakes : Prop :=
  f.dangling ≠ none ∧ f.pairs ≠ []

def ofBody (signature : Option LocatedFault) (column : ℕ) (body : List Char) : LineFaults :=
  ⟨signature, dangling? (tokens column body), faultsOf (readPairs (tokens column body))⟩

def ofLine (line : List Char) : LineFaults :=
  match splitAtFirst? '|' line with
  | some (before, behind) => ofBody (readPrefix before).2 (before.length + 2) behind
  | none => ofBody none 1 line

theorem reported_ofLine (line : List Char) : (ofLine line).reported = (readLine line).faults := by
  unfold ofLine readLine
  cases splitAtFirst? '|' line <;> rfl

theorem standing_ofBody_increasing {signature : Option LocatedFault} {column : ℕ}
    (hsignature : ∀ g ∈ signature, g.column < column) (body : List Char) :
    (ofBody signature column body).standing.Pairwise LocatedFault.Before := by
  -- the faults of the body stand at some of its columns
  have hsub := (columns_body_sublist (tokens column body)).trans
    (columns_tokens_sublist column body)
  have hbody : (faultsOf (readPairs (tokens column body)) ++
      (dangling? (tokens column body)).toList).Pairwise LocatedFault.Before := by
    have hcolumns := List.Pairwise.sublist hsub List.pairwise_lt_range'
    rw [List.pairwise_map] at hcolumns
    exact hcolumns
  unfold standing
  rw [List.pairwise_append]
  refine ⟨?_, hbody, ?_⟩
  · cases signature with
    | none => exact List.Pairwise.nil
    | some g => exact List.pairwise_singleton _ _
  · intro g hg h hh
    have hcolumn : h.column ∈ List.range' column body.length :=
      hsub.subset (List.mem_map_of_mem hh)
    rw [List.mem_range'_1] at hcolumn
    exact (hsignature g (Option.mem_toList.mp hg)).trans_le hcolumn.1

theorem column_readPrefix_lt {before : List Char} {g : LocatedFault}
    (h : g ∈ (readPrefix before).2) : g.column < before.length + 2 := by
  have hvisible : visibleColumn before < before.length + 2 := by
    unfold visibleColumn
    have hle := (List.takeWhile_sublist isBlank (l := before)).length_le
    split <;> omega
  unfold readPrefix at h
  split at h
  · cases h
  · cases h
    exact hvisible

theorem standing_increasing (line : List Char) :
    (ofLine line).standing.Pairwise LocatedFault.Before := by
  unfold ofLine
  split
  next before behind _ =>
    exact standing_ofBody_increasing (fun g hg => column_readPrefix_lt hg) behind
  next => exact standing_ofBody_increasing (fun g hg => by cases hg) line

theorem accountOf_faults (line : SourceLine) :
    (accountOf line).signatureFault = (ofLine line.chars).signature.map (·.fault) ∧
      (accountOf line).danglingFault = (ofLine line.chars).dangling.map (·.fault) ∧
      (accountOf line).pairFaults = (ofLine line.chars).pairs.map (·.fault) := by
  unfold accountOf ofLine
  cases splitAtFirst? '|' line.chars with
  | some cut => exact ⟨rfl, rfl, pairFaults_bodyAccount _ _ _ _⟩
  | none => exact ⟨rfl, rfl, pairFaults_bodyAccount _ _ _ _⟩

variable {f}

theorem mem_reported_iff {g : LocatedFault} : g ∈ f.reported ↔ g ∈ f.standing := by
  unfold reported standing
  simp only [List.mem_append]
  tauto

theorem reported_eq_standing (h : ¬ f.Overtakes) : f.reported = f.standing := by
  unfold Overtakes at h
  rw [not_and_or, not_not, not_not] at h
  unfold reported standing
  rcases h with h | h
  · rw [h, Option.toList_none, List.nil_append, List.append_nil]
  · rw [h, List.append_nil, List.nil_append]

theorem exists_overtaken (h : f.standing.Pairwise LocatedFault.Before) (hover : f.Overtakes) :
    ∃ last pair rest, f.dangling = some last ∧ f.pairs = pair :: rest ∧ pair.Before last := by
  obtain ⟨last, hlast⟩ := Option.ne_none_iff_exists'.mp hover.1
  obtain ⟨pair, rest, hpairs⟩ := List.exists_cons_of_ne_nil hover.2
  refine ⟨last, pair, rest, hlast, hpairs, ?_⟩
  unfold standing at h
  rw [hlast, hpairs] at h
  exact (List.pairwise_append.mp (List.pairwise_append.mp h).2.1).2.2 pair List.mem_cons_self last
    List.mem_cons_self

theorem reported_increasing_iff (h : f.standing.Pairwise LocatedFault.Before) :
    f.reported.Pairwise LocatedFault.Before ↔ ¬ f.Overtakes := by
  constructor
  · intro hreported hover
    obtain ⟨last, pair, rest, hlast, hpairs, hbefore⟩ := exists_overtaken h hover
    unfold reported at hreported
    rw [hlast, hpairs] at hreported
    have hafter : last.Before pair :=
      List.rel_of_pairwise_cons (List.pairwise_append.mp hreported).2.1 List.mem_cons_self
    exact lt_asymm hbefore hafter
  · intro hover
    rw [reported_eq_standing hover]
    exact h

/-- Nothing stands before what is reported first, but where a last word overtakes all of its line. -/
theorem head_reported_iff (h : f.standing.Pairwise LocatedFault.Before) :
    (∀ g ∈ f.reported.head?, ∀ e ∈ f.reported, ¬ e.Before g) ↔
      f.signature ≠ none ∨ ¬ f.Overtakes := by
  constructor
  · intro hfirst
    by_contra hno
    rw [not_or, not_not, not_not] at hno
    obtain ⟨hsignature, hover⟩ := hno
    obtain ⟨last, pair, rest, hlast, hpairs, hbefore⟩ := exists_overtaken h hover
    unfold reported at hfirst
    rw [hsignature, hlast, hpairs] at hfirst
    exact hfirst last rfl pair (by simp) hbefore
  · intro hcond g hg e he
    have hhead : f.reported.head? = f.standing.head? := by
      rcases hcond with hsignature | hover
      · obtain ⟨first, hfirst⟩ := Option.ne_none_iff_exists'.mp hsignature
        unfold reported standing
        rw [hfirst]
        rfl
      · rw [reported_eq_standing hover]
    rw [hhead] at hg
    obtain ⟨rest, hrest⟩ := List.head?_eq_some_iff.mp hg
    rw [mem_reported_iff, hrest] at he
    rw [hrest] at h
    rcases List.mem_cons.mp he with rfl | he
    · exact lt_irrefl e.column
    · exact lt_asymm (List.rel_of_pairwise_cons h he)

/-- Without the last word, the faults are reported as they stand. -/
theorem filter_reported_eq {p : LocatedFault → Bool} (h : ∀ g ∈ f.dangling, p g = false) :
    f.reported.filter p = f.standing.filter p := by
  have hnone : f.dangling.toList.filter p = [] := by
    rw [List.filter_eq_nil_iff]
    intro g hg
    rw [h g (Option.mem_toList.mp hg)]
    exact Bool.false_ne_true
  unfold reported standing
  simp only [List.filter_append, hnone, List.nil_append, List.append_nil]

theorem before_dangling (h : f.standing.Pairwise LocatedFault.Before) {g last : LocatedFault}
    (hg : g ∈ f.reported) (hlast : last ∈ f.dangling) : g = last ∨ g.Before last := by
  rw [mem_reported_iff] at hg
  unfold standing at h hg
  rw [← List.append_assoc] at h hg
  rcases List.mem_append.mp hg with hg | hg
  · exact Or.inr ((List.pairwise_append.mp h).2.2 g hg last (Option.mem_toList.mpr hlast))
  · exact Or.inl (Option.mem_unique (Option.mem_toList.mp hg) hlast)

/-- The kind of a fault tells whether it is that of a last word. -/
theorem mem_dangling_iff {line : List Char} {g : LocatedFault} (h : g ∈ (ofLine line).reported) :
    g ∈ (ofLine line).dangling ↔ g.fault.kind = .danglingToken := by
  have hbody : ∀ {signature column body}, (g ∈ signature → g.fault.kind ≠ .danglingToken) →
      g ∈ (ofBody signature column body).reported →
      (g ∈ (ofBody signature column body).dangling ↔ g.fault.kind = .danglingToken) := by
    intro signature column body hkind hmem
    refine ⟨kind_of_mem_dangling?, fun heq => ?_⟩
    rcases List.mem_append.mp hmem with hmem | hmem
    · exact absurd heq (hkind (Option.mem_toList.mp hmem))
    rcases List.mem_append.mp hmem with hmem | hmem
    · exact Option.mem_toList.mp hmem
    · rcases kind_of_mem_faultsOf hmem with hpair | hpair <;> cases hpair.symm.trans heq
  unfold ofLine at h ⊢
  cases hsplit : splitAtFirst? '|' line with
  | some cut =>
    rw [hsplit] at h
    refine hbody (fun hmem heq => ?_) h
    cases (kind_of_mem_readPrefix hmem).symm.trans heq
  | none =>
    rw [hsplit] at h
    exact hbody (fun hmem => by cases hmem) h

end LineFaults

/-! ## 3. Lines under lines -/

def LocatedFault.onLine (number : ℕ) (g : LocatedFault) : Diagnostic :=
  g.fault.atPlace number (some g.column)

theorem onLine_before_iff {number : ℕ} {g h : LocatedFault} :
    (g.onLine number).Before (h.onLine number) ↔ g.Before h := by
  constructor
  · rintro (hlt | ⟨-, c, hc, d, hd, hlt⟩)
    · exact absurd hlt (lt_irrefl number)
    · obtain rfl : g.column = c := Option.some.inj hc
      obtain rfl : h.column = d := Option.some.inj hd
      exact hlt
  · intro hlt
    exact Or.inr ⟨rfl, g.column, rfl, h.column, rfl, hlt⟩

/-- What is reported of lines, one after the other. -/
def reportLines (faults : SourceLine → List LocatedFault) (ls : List SourceLine) :
    List Diagnostic :=
  ls.flatMap fun line => (faults line).map (·.onLine line.number)

section

variable {faults : SourceLine → List LocatedFault} {ls : List SourceLine}

theorem reportLines_cons (line : SourceLine) :
    reportLines faults (line :: ls) =
      (faults line).map (·.onLine line.number) ++ reportLines faults ls :=
  List.flatMap_cons

theorem mem_reportLines_iff {d : Diagnostic} :
    d ∈ reportLines faults ls ↔
      ∃ line ∈ ls, ∃ g ∈ faults line, g.onLine line.number = d := by
  unfold reportLines
  simp only [List.mem_flatMap, List.mem_map]

theorem reportLines_increasing_iff (hls : ls.Pairwise fun a b => a.number < b.number) :
    (reportLines faults ls).Pairwise Diagnostic.Before ↔
      ∀ line ∈ ls, (faults line).Pairwise LocatedFault.Before := by
  have hlines : ls.Pairwise fun a b => ∀ d ∈ (faults a).map (·.onLine a.number),
      ∀ e ∈ (faults b).map (·.onLine b.number), d.Before e := by
    refine hls.imp ?_
    intro a b hab d hd e he
    obtain ⟨g, -, rfl⟩ := List.mem_map.mp hd
    obtain ⟨h, -, rfl⟩ := List.mem_map.mp he
    exact Or.inl hab
  unfold reportLines
  rw [List.pairwise_flatMap, and_iff_left hlines]
  apply forall₂_congr
  intro line _
  rw [List.pairwise_map]
  simp only [onLine_before_iff]

theorem filter_reportLines (p : Diagnostic → Bool) :
    (reportLines faults ls).filter p =
      reportLines (fun line => (faults line).filter fun g => p (g.onLine line.number)) ls := by
  unfold reportLines
  rw [List.filter_flatMap]
  simp only [List.filter_map]
  rfl

/-- Lines are told apart by their numbers. -/
theorem line_eq_of_number_eq (hls : ls.Pairwise fun a b => a.number < b.number) {a b : SourceLine}
    (ha : a ∈ ls) (hb : b ∈ ls) (h : a.number = b.number) : a = b := by
  have hnodup : (ls.map (·.number)).Nodup := List.pairwise_map.mpr (hls.imp ne_of_lt)
  exact List.inj_on_of_nodup_map hnodup ha hb h

/-- When no other line has faults, what is reported is what is reported of the one line. -/
theorem reportLines_of_line (hls : ls.Pairwise fun a b => a.number < b.number) {line : SourceLine}
    (hline : line ∈ ls) (hother : ∀ other ∈ ls, other.number ≠ line.number → faults other = []) :
    reportLines faults ls = (faults line).map (·.onLine line.number) := by
  induction ls with
  | nil => cases hline
  | cons first rest ih =>
    obtain ⟨hfirst, hrest⟩ := List.pairwise_cons.mp hls
    rw [reportLines_cons]
    rcases List.mem_cons.mp hline with rfl | hmem
    · -- every later line has a greater number
      have hnothing : reportLines faults rest = [] := by
        apply List.flatMap_eq_nil_iff.mpr
        intro later hlater
        rw [hother later (List.mem_cons_of_mem _ hlater) (hfirst later hlater).ne', List.map_nil]
      rw [hnothing, List.append_nil]
    · rw [hother first List.mem_cons_self (hfirst line hmem).ne, List.map_nil, List.nil_append]
      exact ih hrest hmem fun other h => hother other (List.mem_cons_of_mem _ h)

/-- The first line with faults decides whether anything stands before what is reported first. -/
theorem head_reportLines_iff (hls : ls.Pairwise fun a b => a.number < b.number) :
    (∀ d ∈ (reportLines faults ls).head?, ∀ e ∈ reportLines faults ls, ¬ e.Before d) ↔
      ∀ line ∈ ls.find? (fun line => faults line ≠ []),
        ∀ g ∈ (faults line).head?, ∀ h ∈ faults line, ¬ h.Before g := by
  induction ls with
  | nil => exact iff_of_true (fun d hd => by cases hd) (fun line hline => by cases hline)
  | cons line rest ih =>
    obtain ⟨hline, hrest⟩ := List.pairwise_cons.mp hls
    cases hfaults : faults line with
    | nil =>
      rw [reportLines_cons, hfaults, List.map_nil, List.nil_append,
        List.find?_cons_of_neg (by simp [hfaults])]
      exact ih hrest
    | cons first others =>
      have hcons : reportLines faults (line :: rest) =
          first.onLine line.number ::
            (others.map (·.onLine line.number) ++ reportLines faults rest) := by
        rw [reportLines_cons, hfaults, List.map_cons, List.cons_append]
      rw [hcons, List.find?_cons_of_pos (by simp [hfaults])]
      simp only [List.head?_cons, Option.mem_def, Option.some.injEq, forall_eq', hfaults]
      constructor
      · intro hfirst h hh hbefore
        refine hfirst (h.onLine line.number) ?_ (onLine_before_iff.mpr hbefore)
        rcases List.mem_cons.mp hh with rfl | hh
        · exact List.mem_cons_self
        · exact List.mem_cons_of_mem _ (List.mem_append_left _ (List.mem_map_of_mem hh))
      · intro hfirst e he hbefore
        rw [← hcons, mem_reportLines_iff] at he
        obtain ⟨other, hother, g, hg, rfl⟩ := he
        rcases List.mem_cons.mp hother with rfl | hother
        · rw [hfaults] at hg
          exact hfirst g hg (onLine_before_iff.mp hbefore)
        · -- a later line is not before this one
          rcases hbefore with hlt | ⟨heq, -⟩
          · exact lt_asymm hlt (hline other hother)
          · exact (hline other hother).ne' heq

end

theorem lineFaults_eq_reportLines (text : String) :
    lineFaults text =
      reportLines (fun line => (LineFaults.ofLine line.chars).reported)
        (contentLines text.toList) := by
  unfold lineFaults readings reportLines
  rw [List.flatMap_map]
  simp only [LineFaults.reported_ofLine]
  rfl

/-! ## 4. The whole text -/

/-- The last word is reported before bad pairs of its line. -/
def LineAccount.Overtakes (a : LineAccount) : Prop :=
  a.danglingFault ≠ none ∧ a.pairFaults ≠ []

theorem overtakes_accountOf (line : SourceLine) :
    (accountOf line).Overtakes ↔ (LineFaults.ofLine line.chars).Overtakes := by
  obtain ⟨-, hdangling, hpairs⟩ := LineFaults.accountOf_faults line
  unfold LineAccount.Overtakes LineFaults.Overtakes
  rw [hdangling, hpairs, ne_eq, Option.map_eq_none_iff, ne_eq, List.map_eq_nil_iff]

theorem faults_accountOf_eq_nil_iff (line : SourceLine) :
    (accountOf line).faults = [] ↔ (LineFaults.ofLine line.chars).reported = [] := by
  obtain ⟨hsignature, hdangling, hpairs⟩ := LineFaults.accountOf_faults line
  unfold LineAccount.faults LineFaults.reported
  rw [hsignature, hdangling, hpairs, Option.toList_map, Option.toList_map, ← List.map_append,
    ← List.map_append, List.map_eq_nil_iff]

/-- Diagnostics follow the text, but for last words that overtake the bad pairs of their lines. -/
structure OrderedButLastWords (accounts : List LineAccount) (diagnostics : List Diagnostic) :
    Prop where
  in_order_iff : diagnostics.IsChain Diagnostic.Before ↔ ∀ a ∈ accounts, ¬ a.Overtakes
  /-- Whether something stands before the place that is told of first. -/
  first_iff : (∀ d ∈ diagnostics.head?, ∀ e ∈ diagnostics, ¬ e.Before d) ↔
    ∀ a ∈ accounts.find? (·.faults ≠ []), a.signatureFault ≠ none ∨ ¬ a.Overtakes
  others_in_order :
    (diagnostics.filter (·.kind ≠ .danglingToken)).Pairwise Diagnostic.Before
  last_word_last : ∀ d ∈ diagnostics, d.kind = .danglingToken →
    ∀ e ∈ diagnostics, e.line = d.line → e = d ∨ e.Before d

theorem lineFaults_ordered (text : String) :
    OrderedButLastWords (accountsOf text) (lineFaults text) := by
  have hlines := contentLines_increasing text.toList
  rw [lineFaults_eq_reportLines]
  unfold accountsOf
  constructor
  case in_order_iff =>
    rw [List.isChain_iff_pairwise, reportLines_increasing_iff hlines, List.forall_mem_map]
    apply forall₂_congr
    intro line _
    rw [overtakes_accountOf,
      LineFaults.reported_increasing_iff (LineFaults.standing_increasing line.chars)]
  case first_iff =>
    have hfind : ((contentLines text.toList).map accountOf).find? (·.faults ≠ []) =
        ((contentLines text.toList).find? fun line =>
          (LineFaults.ofLine line.chars).reported ≠ []).map accountOf := by
      rw [List.find?_map]
      congr 2
      funext line
      rw [Function.comp_apply, decide_eq_decide, ne_eq, ne_eq, faults_accountOf_eq_nil_iff]
    rw [head_reportLines_iff hlines, hfind]
    simp only [Option.mem_def, Option.map_eq_some_iff, forall_exists_index, and_imp,
      forall_apply_eq_imp_iff₂]
    apply forall₂_congr
    intro line _
    obtain ⟨hsignature, -, -⟩ := LineFaults.accountOf_faults line
    rw [overtakes_accountOf, hsignature, ne_eq, Option.map_eq_none_iff]
    exact LineFaults.head_reported_iff (LineFaults.standing_increasing line.chars)
  case others_in_order =>
    rw [filter_reportLines, reportLines_increasing_iff hlines]
    intro line _
    rw [LineFaults.filter_reported_eq]
    · exact (LineFaults.standing_increasing line.chars).filter _
    · intro g hg
      have hmem : g ∈ (LineFaults.ofLine line.chars).reported :=
        List.mem_append_right _ (List.mem_append_left _ (Option.mem_toList.mpr hg))
      have hkind : (g.onLine line.number).kind = .danglingToken :=
        (LineFaults.mem_dangling_iff hmem).mp hg
      simp [hkind]
  case last_word_last =>
    intro d hd hkind e he hline
    obtain ⟨line, hmem, g, hg, rfl⟩ := mem_reportLines_iff.mp hd
    obtain ⟨line', hmem', h, hh, rfl⟩ := mem_reportLines_iff.mp he
    obtain rfl : line' = line := line_eq_of_number_eq hlines hmem' hmem hline
    have hlast := (LineFaults.mem_dangling_iff hg).mpr hkind
    rcases LineFaults.before_dangling (LineFaults.standing_increasing line'.chars) hh hlast with
      rfl | hbefore
    · exact Or.inl rfl
    · exact Or.inr (onLine_before_iff.mpr hbefore)

/-- A text that yields nothing has one diagnostic, which follows no other. -/
theorem OrderedButLastWords.singleton {accounts : List LineAccount}
    (h : OrderedButLastWords accounts []) {d : Diagnostic} (hkind : d.kind ≠ .danglingToken) :
    OrderedButLastWords accounts [d] where
  in_order_iff := iff_of_true (.singleton d) (h.in_order_iff.mp .nil)
  first_iff := by
    refine iff_of_true ?_ (h.first_iff.mp fun d hd => by cases hd)
    intro e he e' he' hbefore
    obtain rfl : d = e := Option.some.inj he
    obtain rfl := List.mem_singleton.mp he'
    exact hbefore.place_ne ⟨rfl, rfl⟩
  others_in_order := (List.pairwise_singleton _ d).filter _
  last_word_last e he hdangling := by
    obtain rfl := List.mem_singleton.mp he
    exact absurd hdangling hkind

section

variable (options : ParseOptions) (text : String)

/-- The error that is shown for a text is its first diagnostic, however it is asked for. -/
theorem errors_of_head {d : Diagnostic} (h : d ∈ (parse options text).diagnostics.head?) :
    (parse options text).firstError? = some (.parse d.line d.column d.message) ∧
      (parse options text).strict = .error (.parse d.line d.column d.message) ∧
      ∀ container, compileStrict options container text =
        .error (.parse d.line d.column d.message) := by
  have hfirst : (parse options text).firstError? = some (.parse d.line d.column d.message) :=
    Option.map_eq_some_iff.mpr ⟨d, h, rfl⟩
  exact ⟨hfirst, strict_eq_error_iff.mpr hfirst, fun _ => compileStrict_eq_error_iff.mpr hfirst⟩

/-- The diagnostics of a text are in its order exactly when no last word without a partner stands on
a line with a bad pair.  Such a word is told of too early, and all else keeps its order; so the error
that is shown names the earliest place, unless a last word overtakes all of the first faulty line. -/
theorem parse_ordered_but_last_words :
    OrderedButLastWords (accountsOf text) (parse options text).diagnostics ∧
      ∀ d ∈ (parse options text).diagnostics.head?,
        (parse options text).firstError? = some (.parse d.line d.column d.message) ∧
          (parse options text).strict = .error (.parse d.line d.column d.message) ∧
          ∀ container, compileStrict options container text =
            .error (.parse d.line d.column d.message) := by
  refine ⟨?_, fun d hd => errors_of_head options text hd⟩
  have hordered := lineFaults_ordered text
  unfold parse
  rw [parseFrom_diagnostics]
  split
  next hnothing =>
    rw [hnothing.2.2] at hordered
    exact hordered.singleton DiagnosticKind.noConfusion
  next => exact hordered

end

/-- The word at the end is told of first, and the bad pair in front of it second. -/
theorem last_word_overtakes :
    let output := parse .none "Z9 q D4"
    output.diagnostics.map (fun d => (d.line, d.column, d.kind)) =
        [(1, some 6, .danglingToken), (1, some 1, .invalidPitch)] ∧
      ¬ output.diagnostics.IsChain Diagnostic.Before ∧
      (∃ d ∈ output.diagnostics.head?, ∃ e ∈ output.diagnostics, e.Before d ∧
        d.column = some 6 ∧ output.strict = .error (.parse d.line d.column d.message)) := by
  intro output
  obtain ⟨hordered, herror⟩ := parse_ordered_but_last_words .none "Z9 q D4"
  have hover : (accountOf ⟨1, "Z9 q D4".toList⟩).Overtakes := ⟨by decide, by decide⟩
  have hmem : accountOf ⟨1, "Z9 q D4".toList⟩ ∈ accountsOf "Z9 q D4" :=
    List.mem_map_of_mem (by decide)
  have hplaces : output.diagnostics.map (fun d => (d.line, d.column, d.kind)) =
      [(1, some 6, .danglingToken), (1, some 1, .invalidPitch)] := by decide
  obtain ⟨d, rest, hcons, hd, hrest⟩ := List.map_eq_cons_iff.mp hplaces
  obtain ⟨e, nothing, rfl, he, -⟩ := List.map_eq_cons_iff.mp hrest
  obtain ⟨hdline, hdcolumn, -⟩ : d.line = 1 ∧ d.column = some 6 ∧ d.kind = .danglingToken := by
    simpa using hd
  obtain ⟨heline, hecolumn, -⟩ : e.line = 1 ∧ e.column = some 1 ∧ e.kind = .invalidPitch := by
    simpa using he
  have hhead : d ∈ output.diagnostics.head? := by
    rw [hcons]
    rfl
  have hbefore : e.Before d := Or.inr ⟨heline.trans hdline.symm, 1, hecolumn, 6, hdcolumn, by decide⟩
  refine ⟨hplaces, fun hchain => hordered.in_order_iff.mp hchain _ hmem hover, ?_⟩
  exact ⟨d, hhead, e, by rw [hcons]; simp, hbefore, hdcolumn, (herror d hhead).2.1⟩

end Notation

end TextScore
