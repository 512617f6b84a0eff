import WqSource.Proofs.Recovery.Place

/-!
# Programs step by step

A parse that recovers reads the statements of a program in steps. A step takes a separator, or it
reads a statement, or it passes over one that is in error: then the error is noted, and what
follows it is skipped. What follows a step is read as if the program began there, so whatever holds
of every step holds of the whole program.

## Main definitions

* `Problem.grammar?`, `Parsed.syntaxErrors`: the errors that a parse can recover from.
* `Grammar.Step`, `Grammar.Run`: reading statement by statement.
* `Grammar.Halts`: how that ends.
* `Grammar.Breaks`: a statement in error.

## Main statements

* `Step.topLevel_eq`, `Run.halts`: the statements of a program are read by steps up to its end.
* `Run.breaks`, `Halts.breaks`: every error that is noted belongs to a statement in error.
-/

namespace WqSource
open Grammar WqSource.Parser

/-! ## Errors of the grammar -/

/-- The error of the grammar, if the problem is one. -/
def Problem.grammar? : Problem → Option GrammarError
  | failure (.grammar g) => some g
  | _ => none

/-- The errors of the grammar that a parse has found. -/
def Parsed.syntaxErrors (p : Parsed) : List GrammarError := p.problems.filterMap Problem.grammar?

namespace Cursor
variable {c c' : Cursor}

/-- The errors of the grammar that have been noted. -/
def syntaxErrors (c : Cursor) : List GrammarError := c.problems.filterMap Problem.grammar?

theorem syntaxErrors_congr (h : c'.problems = c.problems) : c'.syntaxErrors = c.syntaxErrors :=
  congrArg (List.filterMap Problem.grammar?) h

@[simp] theorem syntaxErrors_note_failure (g : GrammarError) :
    (c.note (.failure (.grammar g))).syntaxErrors = c.syntaxErrors ++ [g] := by
  simp [syntaxErrors, note, Problem.grammar?]

/-- Parsers note no errors. -/
theorem Leads.syntaxErrors (h : c.Leads c') : c'.syntaxErrors = c.syntaxErrors := by
  obtain ⟨ts, h⟩ := h
  induction h with
  | refl => rfl
  | take _ ht ih => rw [← ih, syntaxErrors_congr (problems_take ht)]
  | warn _ ht _ _ ih =>
    rw [← ih, ← syntaxErrors_congr (problems_take ht)]
    simp [Cursor.syntaxErrors, note, Problem.grammar?]

theorem Fails.problems {e : ParseError} (h : c.Fails e c') : c'.problems = c.problems := by
  cases h <;> rfl

end Cursor

namespace Grammar
variable {a b c : Cursor}

/-! ## Steps -/

/-- What is read between two places where a parse with recovery may stop: nothing over a separator,
and the statement that stands there, if any of it is read. -/
inductive Step (b : Cursor) : List Statement → Cursor → Prop where
  | separator {t : Token} {c : Cursor} (hb : b.atSeparator = true) (ht : b.take = (.ok t, c)) :
    Step b [] c
  | statement {items : List Statement} {c : Cursor} (hb : atStatementEnd b = false)
    (hrun : (optionalStatement true).run b = (.ok ⟨items, none⟩, c)) : Step b items c

/-- What is read in any number of steps. -/
inductive Run (a : Cursor) : List Statement → Cursor → Prop where
  | refl : Run a [] a
  | step {read items : List Statement} {b c : Cursor} :
    Run a read b → Step b items c → Run a (read ++ items) c

/-- How a parse with recovery ends where no step is possible. -/
inductive Halts (b : Cursor) : Outcome (List Statement) × Cursor → Prop where
  | atEnd (hb : b.atEnd = true) : Halts b (⟨[], none⟩, b)
  | separator {e : ParseError} {c : Cursor} (hb : b.atSeparator = true)
    (ht : b.take = (.error e, c)) : Halts b (⟨[], some e⟩, c)
  | statement {items : List Statement} {e : ParseError} {c : Cursor}
    (hb : atStatementEnd b = false)
    (hrun : (optionalStatement true).run b = (.ok ⟨items, some e⟩, c)) :
    Halts b (⟨items, some e⟩, c)

/-- Statements in front of what follows them. -/
def following (read : List Statement) (rest : Outcome (List Statement) × Cursor) :
    Outcome (List Statement) × Cursor :=
  (⟨read ++ rest.1.result, rest.1.failure⟩, rest.2)

theorem following_following (read items : List Statement)
    (rest : Outcome (List Statement) × Cursor) :
    following read (following items rest) = following (read ++ items) rest := by
  simp [following]

@[simp] theorem following_nil (rest : Outcome (List Statement) × Cursor) :
    following [] rest = rest := rfl

theorem atEnd_of_not_atStatementEnd (h : atStatementEnd c = false) : c.atEnd = false := by
  simp only [atStatementEnd, Bool.or_eq_false_iff] at h
  exact h.2

theorem atStatementEnd_of_failure {recover : Bool} {items : List Statement} {e : ParseError}
    (h : (optionalStatement recover).run b = (.ok ⟨items, some e⟩, c)) :
    atStatementEnd b = false := by
  by_contra hstop
  rw [run_optionalStatement, if_pos (by simpa using hstop)] at h
  cases h

/-- Behind a part of a program that does not fail a separator is taken, unless it is the end. -/
theorem topLevel_of_run {items : List Statement}
    (h : (optionalStatement true).run b = (.ok ⟨items, none⟩, c)) :
    topLevel true b = following items (if c.atEnd then (⟨[], none⟩, c) else
      match c.take with
      | (.error e, c₁) => (⟨[], some e⟩, c₁)
      | (.ok _, c₁) => topLevel true c₁) := by
  have hstop : atStatementEnd c = true := optionalStatement_atStatementEnd _ _ h rfl
  rw [topLevel, collect_ok h]
  by_cases hend : c.atEnd = true
  · rw [if_pos hend, if_pos hend, following, List.append_nil]
  · have hagain : c.atSeparator = true := by simpa [atStatementEnd, hend] using hstop
    rw [if_neg hend, if_neg hend, if_pos hagain]
    rcases c.take with ⟨e | t, c₁⟩
    · rw [following, List.append_nil]
    · rfl

/-- What follows a step is read from there on as if the program began there. -/
theorem Step.topLevel_eq {items : List Statement} (h : Step b items c) :
    topLevel true b = following items (topLevel true c) := by
  cases h with
  | separator hb ht =>
    have hstop : atStatementEnd b = true := by simp [atStatementEnd, hb]
    rw [topLevel_of_run (run_optionalStatement_atStatementEnd hstop),
      if_neg (by simp [Cursor.atEnd_of_atSeparator hb]), ht]
  | statement hb hrun =>
    have hstop : atStatementEnd c = true := optionalStatement_atStatementEnd _ _ hrun rfl
    rw [topLevel_of_run hrun, topLevel_of_run (run_optionalStatement_atStatementEnd hstop),
      following_nil]

theorem Run.topLevel_eq {read : List Statement} (h : Run a read c) :
    topLevel true a = following read (topLevel true c) := by
  induction h with
  | refl => rfl
  | step _ hs ih => rw [ih, hs.topLevel_eq, following_following]

/-- A part of a program is a step, or none is needed. -/
theorem Run.part {read items : List Statement} (h : Run a read b)
    (hrun : (optionalStatement true).run b = (.ok ⟨items, none⟩, c)) : ∃ read', Run a read' c := by
  cases hb : atStatementEnd b with
  | true =>
    rw [run_optionalStatement, if_pos hb] at hrun
    cases hrun
    exact ⟨read, h⟩
  | false => exact ⟨_, h.step (.statement hb hrun)⟩

/-- A run goes on up to a place where no step is possible. -/
theorem Run.halts {read : List Statement} (h : Run a read c) :
    ∃ read' b, Run a read' b ∧ Halts b (topLevel true b) := by
  have hstops {b : Cursor} (hb : atStatementEnd b = true) :=
    topLevel_of_run (run_optionalStatement_atStatementEnd hb)
  fun_induction collect (·.atSeparator) (optionalStatement true) c generalizing read with
  | case1 c e c₁ hp =>
    obtain ⟨o, c', ho⟩ := optionalStatement_ok true c
    simp [hp] at ho
  | case2 c items e c₁ hp =>
    refine ⟨read, c, h, ?_⟩
    rw [topLevel, collect_failed hp]
    exact .statement (atStatementEnd_of_failure hp) hp
  | case3 c items c₁ hp hc₁ =>
    obtain ⟨read', hrun⟩ := h.part hp
    refine ⟨read', c₁, hrun, ?_⟩
    rw [hstops (by simp [atStatementEnd, hc₁]), if_pos hc₁]
    exact .atEnd hc₁
  | case4 c items c₁ hp hc₁ hagain e c₂ ht =>
    obtain ⟨read', hrun⟩ := h.part hp
    refine ⟨read', c₁, hrun, ?_⟩
    rw [hstops (by simp [atStatementEnd, hagain]), if_neg hc₁, ht]
    exact .separator hagain ht
  | case5 c items c₁ hp hc₁ hagain t c₂ ht further c₃ hr ih =>
    obtain ⟨read', hrun⟩ := h.part hp
    exact ih (hrun.step (.separator hagain ht))
  | case6 c items c₁ hp hc₁ hagain =>
    have hstop := optionalStatement_atStatementEnd _ _ hp rfl
    simp [atStatementEnd, hc₁, hagain] at hstop

/-! ## Statements in error -/

/-- The statement at the first cursor is in error at the second one: there a parse without
recovery stops. -/
def Breaks (b : Cursor) (g : GrammarError) (c : Cursor) : Prop :=
  ∃ items, (optionalStatement false).run b = (.ok ⟨items, some (.grammar g)⟩, c)

/-- With recovery the error is noted, and tokens are skipped behind it. -/
theorem run_afterError_grammar (read : List Statement) (g : GrammarError) (c : Cursor) :
    (afterError true read (.grammar g)).run c =
      match synchronize.run (c.note (.failure (.grammar g))) with
      | (.ok _, c₁) => (.ok ⟨read, none⟩, c₁)
      | (.error e, c₁) => (.ok ⟨read, some e⟩, c₁) := by
  simp only [afterError, run_bind, run_note, run_attempt]
  rcases synchronize.run (c.note (.failure (.grammar g))) with ⟨e | _, c₁⟩ <;> rfl

theorem Breaks.atStatementEnd {g : GrammarError} (h : Breaks b g c) :
    atStatementEnd b = false := by
  obtain ⟨items, h⟩ := h
  exact atStatementEnd_of_failure h

/-- An error is about the token where it is found, and with recovery it is passed over. -/
theorem Breaks.passed {g : GrammarError} (h : Breaks b g c) :
    b.Leads c ∧ c.Fails (.grammar g) c ∧
      ∃ items, (optionalStatement true).run b = (afterError true items (.grammar g)).run c := by
  obtain ⟨items, h⟩ := h
  rcases optionalStatement_cases b with ⟨items', c₁, -, hrun⟩ |
    ⟨items', e, c₁, c₂, hleads, hfails, hrun⟩
  · simp [hrun] at h
  · obtain ⟨⟨rfl, rfl⟩, rfl⟩ : (items' = items ∧ e = .grammar g) ∧ c₂ = c := by
      simpa [hrun, run_afterError_false] using h
    obtain ⟨rfl, -⟩ := hfails.grammar
    exact ⟨hleads, hfails, items', hrun true⟩

/-- A part of a program is read without an error, or it ends at a fault, or it is in error and what
follows that is skipped. -/
theorem optionalStatement_true_cases {o : Outcome (List Statement)}
    (h : (optionalStatement true).run b = (.ok o, c)) :
    (b.Leads c ∧ o.failure = none ∧ (optionalStatement false).run b = (.ok o, c)) ∨
      (∃ f c₁, b.Leads c₁ ∧ c₁.Fails (.lexical f) c ∧ o.failure = some (.lexical f)) ∨
        ∃ g place, Breaks b g place ∧
          match synchronize.run (place.note (.failure (.grammar g))) with
          | (.ok _, c₁) => c = c₁ ∧ o.failure = none
          | (.error e, c₁) => c = c₁ ∧ o.failure = some e := by
  rcases optionalStatement_cases b with ⟨items, c₁, hleads, hrun⟩ |
    ⟨items, e, c₁, c₂, hleads, hfails, hrun⟩
  · rw [hrun] at h
    cases h
    exact .inl ⟨hleads, rfl, hrun false⟩
  · rw [hrun] at h
    cases e with
    | lexical f =>
      rw [run_afterError_lexical] at h
      cases h
      exact .inr (.inl ⟨f, c₁, hleads, hfails, rfl⟩)
    | grammar g =>
      refine .inr (.inr ⟨g, c₂, ⟨items, hrun false⟩, ?_⟩)
      rw [run_afterError_grammar] at h
      rcases hskip : synchronize.run (c₂.note (.failure (.grammar g))) with ⟨e | _, c₃⟩ <;>
        rw [hskip] at h <;> cases h <;> exact ⟨rfl, rfl⟩

/-- What stands behind the skipping has the error noted, and nothing else. -/
theorem problems_of_skip {r : Except ParseError Unit} {g : GrammarError}
    (h : synchronize.run (b.note (.failure (.grammar g))) = (r, c)) :
    c.problems = b.problems ++ [.failure (.grammar g)] := by
  have hproblems := synchronize_problems (b.note (.failure (.grammar g)))
  rwa [h] at hproblems

theorem syntaxErrors_of_skip {r : Except ParseError Unit} {g : GrammarError}
    (h : synchronize.run (b.note (.failure (.grammar g))) = (r, c)) :
    c.syntaxErrors = b.syntaxErrors ++ [g] := by
  rw [Cursor.syntaxErrors, problems_of_skip h, ← Cursor.syntaxErrors_note_failure g]
  rfl

/-- An error that is found in a part of a program is the only one there. -/
theorem syntaxErrors_of_run {o : Outcome (List Statement)}
    (h : (optionalStatement true).run b = (.ok o, c)) :
    c.syntaxErrors = b.syntaxErrors ∨
      ∃ g place, Breaks b g place ∧ c.syntaxErrors = b.syntaxErrors ++ [g] := by
  rcases optionalStatement_true_cases h with ⟨hleads, -, -⟩ | ⟨f, c₁, hleads, hfails, -⟩ |
    ⟨g, place, hbreaks, hskip⟩
  · exact .inl hleads.syntaxErrors
  · exact .inl ((Cursor.syntaxErrors_congr hfails.problems).trans hleads.syntaxErrors)
  · refine .inr ⟨g, place, hbreaks, ?_⟩
    rcases hrun : synchronize.run (place.note (.failure (.grammar g))) with ⟨r, c₁⟩
    obtain rfl : c = c₁ := by
      rw [hrun] at hskip
      rcases r with e | _ <;> exact hskip.1
    rw [← hbreaks.passed.1.syntaxErrors, syntaxErrors_of_skip hrun]

/-- What is read in a part of a program is the statement that stands there. -/
theorem statement_of_mem {o : Outcome (List Statement)} {s : Statement}
    (h : (optionalStatement true).run b = (.ok o, c)) (hs : s ∈ o.result) :
    ∃ c', (statement (level maxNesting)).run b = (.ok s, c') := by
  rw [run_optionalStatement] at h
  split at h
  · cases h
    cases hs
  · split at h
    · next e c₁ hrun =>
      rw [afterError_result _ _ h] at hs
      cases hs
    · next s' c₁ hrun =>
      have hresult : o.result = [s'] := by
        split at h
        · cases h
          rfl
        · exact afterError_result _ _ h
      rw [hresult, List.mem_singleton] at hs
      exact ⟨c₁, hs ▸ hrun⟩

/-- Every statement that is read in a run stands at one of its places. -/
theorem Run.statements {read : List Statement} (h : Run a read c) {s : Statement} (hs : s ∈ read) :
    ∃ read' b c', Run a read' b ∧ atStatementEnd b = false ∧
      (statement (level maxNesting)).run b = (.ok s, c') := by
  induction h with
  | refl => cases hs
  | @step read items b c hrun hstep ih =>
    rcases List.mem_append.1 hs with hs | hs
    · exact ih hs
    · cases hstep with
      | separator => cases hs
      | statement hb hpart =>
        obtain ⟨c', hc'⟩ := statement_of_mem hpart hs
        exact ⟨read, b, c', hrun, hb, hc'⟩

/-- What is read where a run halts stands there. -/
theorem Halts.statement_of_mem {r : Outcome (List Statement) × Cursor} (h : Halts b r)
    {s : Statement} (hs : s ∈ r.1.result) :
    atStatementEnd b = false ∧
      ∃ c', (Grammar.statement (level maxNesting)).run b = (.ok s, c') := by
  cases h with
  | atEnd | separator => cases hs
  | statement hstart hrun => exact ⟨hstart, Grammar.statement_of_mem hrun hs⟩

end Grammar
end WqSource
