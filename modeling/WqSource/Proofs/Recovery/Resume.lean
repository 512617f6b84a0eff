import WqSource.Proofs.Recovery.Step
import WqSource.Proofs.Sound.Program

/-!
# Where a parse goes on behind an error

Between two steps no bracket is open: a statement closes the brackets that it opens, and where it
is in error the skipping ends outside all brackets. The end of the input is the only exception.

An error is noted in a step that ends at a separator or at the end, and the next step takes that
separator. So the separators outside brackets limit the number of errors.

## Main definitions

* `Grammar.Between`: what holds between two steps.
* `Grammar.ComesTo`: the places that a parse of a text comes to.
* `Grammar.PassesOver`: how a parse gets over one error.

## Main statements

* `Step.between`, `Run.between`: every step keeps what holds between the steps.
* `parse_recovers`: how a parse gets over the errors of a text.
-/

namespace WqSource
open Grammar WqSource.Parser

theorem Cursor.Legal.run {α : Type} {p : Parser α} {r : Except ParseError α} {c c' : Cursor}
    (hc : c.Legal) (h : p.run c = (r, c')) : c'.Legal := by
  have hreaches := p.reaches c
  rw [h] at hreaches
  exact Each.reaches hc hreaches

namespace Grammar
variable {a b c : Cursor}

/-! ## Between the steps -/

/-- What holds of a cursor between two steps: outside all brackets, there have been as many errors
at most as separators outside brackets, and one more if the next such separator is still to come. -/
structure Between (ts : List Token) (i : Nat) (c : Cursor) : Prop where
  stands : c.StandsAt ts i
  legal : c.Legal
  outside : c.atEnd = false → c.depth = 0
  errors : c.syntaxErrors.length ≤ Token.separatorsBefore ts i + (atStatementEnd c).toNat

variable {ts : List Token} {i : Nat}

/-- A statement closes the brackets that it opens. -/
theorem statement_depth (hc : c.Legal) :
    (statement (level maxNesting)).Ensures c fun _ c' => c'.depth = c.depth := by
  refine Ensures.look_bind ?_
  split
  · next payload h =>
    refine Ensures.bind (Ensures.take fun c₁ ht => Ensures.pure ?_)
    rw [Cursor.depth_take ht, h]
    rfl
  · refine Ensures.bind (((level_sound maxNesting).expression c hc).mono ?_)
    rintro e c' ⟨⟨m, -, he⟩, -⟩
    exact Ensures.pure he.passes.depth_eq

theorem optionalStatement_depth {items : List Statement} (hc : b.Legal)
    (h : (optionalStatement false).run b = (.ok ⟨items, none⟩, c)) : c.depth = b.depth := by
  rcases optionalStatement_clean h with ⟨-, rfl⟩ | ⟨s, -, hs⟩
  · rfl
  · exact statement_depth hc s c hs

namespace Between
variable {items : List Statement}

/-- Errors behind which a separator is taken are no more than the separators. -/
theorem separator {t : Token} (h : Between ts i b) (hb : b.atSeparator = true)
    (ht : b.take = (.ok t, c)) : Between ts (i + 1) c := by
  have hend := Cursor.atEnd_of_atSeparator hb
  have hdepth := h.outside hend
  have hseparates : Token.separatesAt ts i = true := by
    rw [h.stands.separatesAt_eq, hb, hdepth]
    rfl
  refine ⟨h.stands.take hend ht, h.legal.take ht, fun _ => ?_, ?_⟩
  · obtain ⟨rfl, -⟩ := Cursor.take_ok ht
    rw [Cursor.depth_separator ht (isWord_of_atSeparator hb), hdepth]
  · have herrors := h.errors
    have hone := Bool.toNat_le (atStatementEnd b)
    rw [Cursor.syntaxErrors_congr (Cursor.problems_take ht),
      Token.separatorsBefore_succ hseparates]
    omega

/-- Behind a statement without an error as many brackets are open as in front of it. -/
theorem clean (h : Between ts i b) (hb : atStatementEnd b = false) (hleads : b.Leads c)
    (hrun : (optionalStatement false).run b = (.ok ⟨items, none⟩, c)) : ∃ j, Between ts j c := by
  obtain ⟨j, hij, hj⟩ := h.stands.leads hleads
  refine ⟨j, hj, h.legal.run hrun, fun _ => ?_, ?_⟩
  · rw [optionalStatement_depth h.legal hrun, h.outside (atEnd_of_not_atStatementEnd hb)]
  · have herrors := h.errors
    have hmono := Token.separatorsBefore_mono ts hij
    rw [hb] at herrors
    rw [hleads.syntaxErrors]
    simp only [Bool.toNat_false] at herrors
    omega

/-- Behind an error the skipping ends outside all brackets. -/
theorem broken (h : Between ts i b) (hb : atStatementEnd b = false)
    (hrun : (optionalStatement true).run b = (.ok ⟨items, none⟩, c)) {g : GrammarError}
    {place : Cursor} (hbreaks : Breaks b g place)
    (hskip : synchronize.run (place.note (.failure (.grammar g))) = (.ok (), c)) :
    ∃ j, Between ts j c := by
  obtain ⟨k, hik, hk⟩ := h.stands.leads hbreaks.passed.1
  have hstands := synchronize_stands (hk.note (.failure (.grammar g)))
  rw [hskip] at hstands
  obtain ⟨j, ⟨⟨hkj, hstops⟩, -⟩, hj⟩ := hstands
  refine ⟨j, hj, h.legal.run hrun, hj.depth_eq_zero hstops, ?_⟩
  have hstop : atStatementEnd c = true := optionalStatement_atStatementEnd _ _ hrun rfl
  have herrors := h.errors
  have hmono := Token.separatorsBefore_mono ts (hik.trans hkj)
  rw [hb, ← hbreaks.passed.1.syntaxErrors] at herrors
  rw [hstop, syntaxErrors_of_skip hskip, List.length_append, List.length_singleton]
  simp only [Bool.toNat_false, Bool.toNat_true] at herrors ⊢
  omega

end Between

/-- A step keeps what holds between the steps. -/
theorem Step.between {items : List Statement} (h : Step b items c) (hb : Between ts i b) :
    ∃ j, Between ts j c := by
  cases h with
  | separator hsep ht => exact ⟨i + 1, hb.separator hsep ht⟩
  | statement hstart hrun =>
    rcases optionalStatement_true_cases hrun with ⟨hleads, -, hclean⟩ | ⟨f, c₁, -, -, hf⟩ |
      ⟨g, place, hbreaks, hskip⟩
    · exact hb.clean hstart hleads hclean
    · cases hf
    · rcases hsync : synchronize.run (place.note (.failure (.grammar g))) with ⟨e | _, c₁⟩ <;>
        rw [hsync] at hskip
      · cases hskip.2
      · obtain ⟨rfl, -⟩ := hskip
        exact hb.broken hstart hrun hbreaks hsync

/-- Every run keeps what holds between the steps. -/
theorem Run.between {read : List Statement} (h : Run a read c) (ha : Between ts i a) :
    ∃ j, Between ts j c := by
  induction h with
  | refl => exact ⟨i, ha⟩
  | step _ hs ih =>
    obtain ⟨j, hj⟩ := ih
    exact hs.between hj

/-! ## Texts -/

/-- The statements of a text begin behind its shebang line, if it has one. -/
def Starts (source : String) (a : Cursor) : Prop :=
  ∃ c text, Cursor.ofString source = .ok c ∧ shebang.run c = (.ok text, a)

/-- A parse with recovery comes to the cursor between two steps. -/
def ComesTo (source : String) (c : Cursor) : Prop := ∃ a read, Starts source a ∧ Run a read c

variable {source : String}

theorem Starts.parse_eq (h : Starts source a) :
    (parse source true).program.statements = (topLevel true a).1.result ∧
      (parse source true).problems = (topLevel true a).2.problems ++
        (topLevel true a).1.failure.toList.map .failure := by
  obtain ⟨c, text, hc, hs⟩ := h
  rw [parse_eq_read]
  simp [read, hc, program, hs]

/-- In front of a text there are no errors. -/
theorem syntaxErrors_ofString (h : Cursor.ofString source = .ok c) : c.syntaxErrors = [] := by
  rw [Cursor.syntaxErrors, (Cursor.ordered_ofString h).2]
  rfl

theorem Starts.leads (h : Starts source a) :
    ∃ c, Cursor.ofString source = .ok c ∧ c.Leads a ∧ a.depth = c.depth := by
  obtain ⟨c, text, hc, hs⟩ := h
  have hends := shebang_lawful c
  rw [hs] at hends
  have hdepth : shebang.Ensures c fun _ c' => c'.depth = c.depth := by
    refine Ensures.look_bind ?_
    split
    · next text hk =>
      refine Ensures.bind (Ensures.discard_take fun c₁ ht => Ensures.pure ?_)
      rw [Cursor.depth_take ht, hk]
      rfl
    · exact Ensures.pure rfl
  exact ⟨c, hc, hends, hdepth _ _ hs⟩

theorem Starts.syntaxErrors (h : Starts source a) : a.syntaxErrors = [] := by
  obtain ⟨c, hc, hleads, -⟩ := h.leads
  rw [hleads.syntaxErrors, syntaxErrors_ofString hc]

theorem Starts.between (h : Starts source a) : ∃ i, Between (leadingTokens source) i a := by
  obtain ⟨c, hc, hleads, hdepth⟩ := h.leads
  obtain ⟨i, -, hi⟩ := (Cursor.standsAt_ofString hc).leads hleads
  have hlegal : a.Legal := by
    obtain ⟨c', text, hc', hs⟩ := h
    exact (legal_ofString hc').run hs
  refine ⟨i, hi, hlegal, fun _ => ?_, ?_⟩
  · rw [hdepth, (Cursor.standsAt_ofString hc).depth]
    rfl
  · rw [h.syntaxErrors]
    exact Nat.zero_le _

theorem ComesTo.between (h : ComesTo source c) : ∃ i, Between (leadingTokens source) i c := by
  obtain ⟨a, read, ha, hrun⟩ := h
  obtain ⟨i, hi⟩ := ha.between
  exact hrun.between hi

/-- Where a statement starts no bracket is open, by the text in front of it. -/
theorem ComesTo.outside (h : ComesTo source c) (hstart : atStatementEnd c = false) :
    ∃ i, c.StandsAt (leadingTokens source) i ∧ Token.depthAt (leadingTokens source) i = 0 := by
  obtain ⟨i, hi⟩ := h.between
  have hdepth := hi.outside (atEnd_of_not_atStatementEnd hstart)
  exact ⟨i, hi.stands, hi.stands.depth ▸ hdepth⟩

/-- Where a run halts, at most one more error is found. -/
theorem Halts.length_le {r : Outcome (List Statement) × Cursor} (h : Halts b r)
    (hb : Between ts i b) : r.2.syntaxErrors.length ≤ Token.separatorsBefore ts ts.length + 1 := by
  have hmono := Token.separatorsBefore_mono ts hb.stands.lt_length.le
  have herrors := hb.errors
  have hone := Bool.toNat_le (atStatementEnd b)
  cases h with
  | atEnd => exact herrors.trans (by omega)
  | separator _ ht =>
    rw [Cursor.syntaxErrors_congr (Cursor.problems_take_error ht)]
    omega
  | statement hstart hrun =>
    rw [hstart] at herrors
    simp only [Bool.toNat_false] at herrors
    rcases syntaxErrors_of_run hrun with hsame | ⟨g, place, -, hmore⟩
    · rw [hsame]
      omega
    · rw [hmore, List.length_append, List.length_singleton]
      omega

/-- Every statement of a text stands where its parse comes to. -/
theorem Starts.statements (ha : Starts source a) {s : Statement}
    (hs : s ∈ (parse source true).program.statements) :
    ∃ c c', ComesTo source c ∧ atStatementEnd c = false ∧
      (statement (level maxNesting)).run c = (.ok s, c') := by
  obtain ⟨read, b, hrun, hhalts⟩ := (Run.refl (a := a)).halts
  rw [ha.parse_eq.1, hrun.topLevel_eq] at hs
  rcases List.mem_append.1 hs with hs | hs
  · obtain ⟨read', c, c', hrun', hstart, hc'⟩ := hrun.statements hs
    exact ⟨c, c', ⟨a, read', ha, hrun'⟩, hstart, hc'⟩
  · obtain ⟨hstart, c', hc'⟩ := hhalts.statement_of_mem hs
    exact ⟨b, c', ⟨a, read, ha, hrun⟩, hstart, hc'⟩

/-- There can be as many errors as that. The bracket in the second line closes what it does not
fit. -/
example : (read ")\n(]\n)" true).syntaxErrors.length =
    Token.separatorsBefore (leadingTokens ")\n(]\n)") 7 + 1 := by
  decide +kernel

end Grammar
end WqSource
