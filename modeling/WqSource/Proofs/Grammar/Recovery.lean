import WqSource.Grammar.Program
import WqSource.Proofs.Grammar.Contract
import WqSource.Proofs.Grammar.Order

/-!
# Recovery goes on where a parse would stop

A parse that recovers and one that does not take the same way up to the first error that
is not about text. There the one stops and the other notes the error and goes on. So what
the one has found is where the findings of the other begin.

## Main statements

* `topLevel_agrees_or_stops`: the two ways, statement by statement.
* `read_sorted`: the problems of a parse are in order before they are sorted.
* `parse_agrees_or_stops`: two parses of one text.
* `parse_extends`: what recovery adds.
-/

namespace WqSource
open Grammar WqSource.Parser

namespace Parser
variable {α : Type} {again : Cursor → Bool} {part : Parser (Outcome (List α))} {c c₁ : Cursor}

theorem collect_failed {items : List α} {e : ParseError}
    (h : part.run c = (.ok ⟨items, some e⟩, c₁)) : collect again part c = (⟨items, e⟩, c₁) := by
  rw [collect]
  split <;> next he => simp_all

/-- Behind a part that does not fail the collection ends, or goes on behind a token. -/
theorem collect_ok {items : List α} (h : part.run c = (.ok ⟨items, none⟩, c₁)) :
    collect again part c =
      if c₁.atEnd then (⟨items, none⟩, c₁)
      else if again c₁ then
        match c₁.take with
        | (.error e, c₂) => (⟨items, e⟩, c₂)
        | (.ok _, c₂) => (⟨items ++ (collect again part c₂).1.result,
            (collect again part c₂).1.failure⟩, (collect again part c₂).2)
      else (⟨items, none⟩, c₁) := by
  rw [collect]
  split
  · next he => simp [h] at he
  · next he => simp [h] at he
  · next items' c₂ he =>
    obtain ⟨ho, rfl⟩ := Prod.mk.inj (h.symm.trans he)
    cases ho
    split
    · rfl
    · split
      · split <;> next ht => rw [ht]
      · rfl

/-- What the first part gives is where the collection begins. -/
theorem collect_begins {o : Outcome (List α)} (h : part.run c = (.ok o, c₁)) :
    o.result <+: (collect again part c).1.result ∧ c₁.Reaches (collect again part c).2 := by
  rcases o with ⟨items, _ | e⟩
  · rw [collect_ok h]
    split
    · exact ⟨List.prefix_refl _, .refl _⟩
    · split
      · split <;> next ht =>
          have htake : c₁.Reaches c₁.take.2 := .take (.refl c₁)
          rw [ht] at htake
          first
          | exact ⟨List.prefix_refl _, htake⟩
          | exact ⟨List.prefix_append _ _, htake.trans (reaches_collect _ _ _)⟩
      · exact ⟨List.prefix_refl _, .refl _⟩
  · rw [collect_failed h]
    exact ⟨List.prefix_refl _, .refl _⟩

end Parser

namespace Grammar
variable {c : Cursor}

theorem run_afterError_false (read : List Statement) (e : ParseError) :
    (afterError false read e).run c = (.ok ⟨read, some e⟩, c) := rfl

theorem run_afterError_lexical (recover : Bool) (read : List Statement) (e : LexError) :
    (afterError recover read (.lexical e)).run c = (.ok ⟨read, some (.lexical e)⟩, c) := by
  cases recover <;> rfl

/-- An error leaves the statements that were read. -/
theorem afterError_result {recover : Bool} {read : List Statement} {e : ParseError} :
    (afterError recover read e).Ensures c fun o _ => o.result = read := by
  unfold afterError
  split
  · refine Ensures.bind (Ensures.note (Ensures.bind (Ensures.attempt ?_)))
    split
    · exact Ensures.pure rfl
    · exact Ensures.pure rfl
  · exact Ensures.pure rfl

theorem run_optionalStatement (recover : Bool) (c : Cursor) :
    (optionalStatement recover).run c =
      if atStatementEnd c then (.ok ⟨[], none⟩, c) else
        match (statement (level maxNesting)).run c with
        | (.error e, c₁) => (afterError recover [] e).run c₁
        | (.ok s, c₁) =>
          if atStatementEnd c₁ then (.ok ⟨[s], none⟩, c₁)
          else (afterError recover [s] (c₁.unexpected .separator)).run c₁ := by
  unfold optionalStatement
  rw [run_bind, run_look]
  dsimp only
  split
  · rfl
  · rw [run_bind, run_attempt]
    rcases (statement (level maxNesting)).run c with ⟨e | s, c₁⟩
    · rfl
    · dsimp only
      rw [run_bind, run_look]
      dsimp only
      split <;> rfl

theorem run_optionalStatement_atStatementEnd {recover : Bool} (h : atStatementEnd c = true) :
    (optionalStatement recover).run c = (.ok ⟨[], none⟩, c) := by
  rw [run_optionalStatement, if_pos h]

theorem topLevel_atEnd {recover : Bool} (h : c.atEnd = true) :
    topLevel recover c = (⟨[], none⟩, c) := by
  rw [topLevel, collect_ok (run_optionalStatement_atStatementEnd (by simp [atStatementEnd, h])),
    if_pos h]

/-- In front of a separator a program goes on as from the place behind it. -/
theorem topLevel_atSeparator {recover : Bool} (h : c.atSeparator = true) :
    topLevel recover c =
      match c.take with
      | (.error e, c₁) => (⟨[], some e⟩, c₁)
      | (.ok _, c₁) => topLevel recover c₁ := by
  rw [topLevel, collect_ok (run_optionalStatement_atStatementEnd (by simp [atStatementEnd, h])),
    if_neg (by simp [Cursor.atEnd_of_atSeparator h]), if_pos h]
  rcases c.take with ⟨e | t, c₁⟩ <;> simp [topLevel]

/-- What is read without an error is a statement, or nothing where one might end. -/
theorem optionalStatement_clean {items : List Statement} {c₁ : Cursor}
    (h : (optionalStatement false).run c = (.ok ⟨items, none⟩, c₁)) :
    (items = [] ∧ c₁ = c) ∨
      ∃ s, items = [s] ∧ (statement (level maxNesting)).run c = (.ok s, c₁) := by
  rw [run_optionalStatement] at h
  split at h
  · cases h
    exact .inl ⟨rfl, rfl⟩
  · split at h
    · rw [run_afterError_false] at h
      cases h
    · next s c₂ hs =>
      split at h
      · cases h
        exact .inr ⟨s, rfl, hs⟩
      · rw [run_afterError_false] at h
        cases h

/-- A statement is read and may end where it does, or an error stands there; that is the
same with recovery and without. -/
theorem optionalStatement_cases (c : Cursor) :
    (∃ items c₁, c.Leads c₁ ∧
      ∀ recover, (optionalStatement recover).run c = (.ok ⟨items, none⟩, c₁)) ∨
    ∃ items e c₁ c₂, c.Leads c₁ ∧ c₁.Fails e c₂ ∧
      ∀ recover, (optionalStatement recover).run c = (afterError recover items e).run c₂ := by
  have hlawful := statement_lawful (level_lawful maxNesting) c
  have hrun := fun recover => run_optionalStatement recover c
  by_cases hend : atStatementEnd c = true
  · exact .inl ⟨[], c, .refl c, fun recover => by rw [hrun, if_pos hend]⟩
  · rcases hs : (statement (level maxNesting)).run c with ⟨e | s, c₁⟩ <;> rw [hs] at hlawful
    · obtain ⟨c₀, hleads, hfails⟩ := hlawful
      exact .inr ⟨[], e, c₀, c₁, hleads, hfails, fun recover => by rw [hrun, if_neg hend, hs]⟩
    · by_cases hend₁ : atStatementEnd c₁ = true
      · refine .inl ⟨[s], c₁, hlawful, fun recover => ?_⟩
        rw [hrun, if_neg hend, hs]
        exact if_pos hend₁
      · refine .inr ⟨[s], _, c₁, c₁, hlawful, .unexpected .separator, fun recover => ?_⟩
        rw [hrun, if_neg hend, hs]
        exact if_neg hend₁

/-- A part that does not fail is the same with recovery. -/
theorem optionalStatement_same {items : List Statement} {c₁ : Cursor}
    (h : (optionalStatement false).run c = (.ok ⟨items, none⟩, c₁)) :
    c.Leads c₁ ∧ (optionalStatement true).run c = (.ok ⟨items, none⟩, c₁) := by
  rcases optionalStatement_cases c with ⟨items', c', hleads, hrun⟩ |
    ⟨items', e, c', c₂, -, -, hrun⟩
  · obtain ⟨rfl, rfl⟩ : items' = items ∧ c' = c₁ := by simpa [hrun] using h
    exact ⟨hleads, hrun true⟩
  · simp [hrun, run_afterError_false] at h

/-! ## Order -/

/-- A failure that ends a parse begins behind all that was noted. -/
def Settled {α : Type} (r : Outcome α × Cursor) : Prop :=
  r.2.Ordered ∧ ∀ e ∈ r.1.failure, r.2.offset ≤ e.span.start.offset

theorem synchronize_lawful : Lawful synchronize := .skipWhile _

theorem optionalStatement_settled {recover : Bool} {o : Outcome (List Statement)} {c' : Cursor}
    (hc : c.Ordered) (h : (optionalStatement recover).run c = (.ok o, c')) : Settled (o, c') := by
  rcases optionalStatement_cases c with ⟨items, c₁, hleads, hrun⟩ |
    ⟨items, e, c₁, c₂, hleads, hfails, hrun⟩ <;> rw [hrun] at h
  · cases h
    exact ⟨hc.leads hleads, by simp⟩
  · have hc₁ := hc.leads hleads
    obtain ⟨hc₂, hle⟩ := hc₁.fails hfails
    cases e with
    | lexical e =>
      rw [run_afterError_lexical] at h
      cases h
      exact ⟨hc₂, fun e' he' => by cases he'; exact hle⟩
    | grammar g =>
      cases recover with
      | false =>
        cases h
        exact ⟨hc₂, fun e' he' => by cases he'; exact hle⟩
      | true =>
        obtain ⟨rfl, hspan⟩ := hfails.grammar
        have hoffset : (Problem.failure (.grammar g)).offset = c₂.offset :=
          congrArg (·.start.offset) hspan
        have hnoted : (c₂.note (.failure (.grammar g))).Ordered :=
          hc₁.note hoffset.le (hoffset ▸ hc₁.behind)
        have hends := hnoted.ends (synchronize_lawful _)
        simp only [afterError, run_bind, run_note, run_attempt] at h
        split at h
        · next hsync =>
          cases h
          exact ⟨hends.1, by simp⟩
        · next e hsync =>
          cases h
          exact ⟨hends.1, fun e' he' => by cases he'; exact hends.2 _ hsync⟩

theorem afterError_ok (recover : Bool) (read : List Statement) (e : ParseError) :
    ∃ o c', (afterError recover read e).run c = (.ok o, c') := by
  cases e with
  | lexical e => exact ⟨_, _, run_afterError_lexical ..⟩
  | grammar g =>
    cases recover with
    | false => exact ⟨_, _, rfl⟩
    | true =>
      simp only [afterError, run_bind, run_note, run_attempt]
      split <;> exact ⟨_, _, rfl⟩

/-- A part of a program never fails itself. -/
theorem optionalStatement_ok (recover : Bool) (c : Cursor) :
    ∃ o c', (optionalStatement recover).run c = (.ok o, c') := by
  rcases optionalStatement_cases c with ⟨items, c₁, -, hrun⟩ | ⟨items, e, c₁, c₂, -, -, hrun⟩
  · exact ⟨_, _, hrun recover⟩
  · rw [hrun]
    exact afterError_ok recover items e

/-- The statements of a program are read in order, whatever errors there are. -/
theorem topLevel_settled (recover : Bool) (hc : c.Ordered) : Settled (topLevel recover c) := by
  unfold topLevel
  fun_induction collect (·.atSeparator) (optionalStatement recover) c with
  | case1 c e c₁ hp =>
    obtain ⟨o, c', ho⟩ := optionalStatement_ok recover c
    simp [hp] at ho
  | case2 c items e c₁ hp => exact optionalStatement_settled hc hp
  | case3 c items c₁ hp => exact optionalStatement_settled hc hp
  | case4 c items c₁ hp _ _ e c₂ ht =>
    have h := (optionalStatement_settled hc hp).1.ends (Lawful.take c₁)
    rw [run_take, ht] at h
    exact ⟨h.1, fun e' he' => by cases he'; exact h.2 e rfl⟩
  | case5 c items c₁ hp _ _ t c₂ ht further c₃ hr ih =>
    have h := ih ((optionalStatement_settled hc hp).1.take ht).1
    rwa [hr] at h
  | case6 c items c₁ hp => exact optionalStatement_settled hc hp

/-! ## Two parses of one text -/

/-- With recovery and without it the same is found, unless an error of the grammar stops the
one; then the other has noted that error behind all that was found before. -/
theorem topLevel_agrees_or_stops (hc : c.Warned) :
    (topLevel false c).2.Warned ∧
      (topLevel true c = topLevel false c ∨
        (topLevel false c).1.result <+: (topLevel true c).1.result ∧
          ∃ g, (topLevel false c).1.failure = some (.grammar g) ∧
            (topLevel false c).2.problems ++ [.failure (.grammar g)] <+:
              (topLevel true c).2.problems) := by
  unfold topLevel
  fun_induction collect (·.atSeparator) (optionalStatement false) c with
  | case1 c e c₁ hp =>
    obtain ⟨o, c', ho⟩ := optionalStatement_ok false c
    simp [hp] at ho
  | case2 c items e c₁ hp =>
    rcases optionalStatement_cases c with ⟨items', c', -, hrun⟩ |
      ⟨items', e', c', c₂, hleads, hfails, hrun⟩
    · simp [hrun] at hp
    · rw [hrun] at hp
      obtain ⟨⟨rfl, rfl⟩, rfl⟩ : (items' = items ∧ e' = e) ∧ c₂ = c₁ := by
        simpa [run_afterError_false] using hp
      refine ⟨(hc.leads hleads).fails hfails, ?_⟩
      cases e' with
      | lexical e =>
        have hrun' := (hrun true).trans (run_afterError_lexical ..)
        exact .inl (collect_failed hrun')
      | grammar g =>
        obtain ⟨o, c₃, ho⟩ := afterError_ok (c := c₂) true items' (.grammar g)
        have hrun' := (hrun true).trans ho
        obtain ⟨hresult, hreaches⟩ :=
          @collect_begins _ (fun c : Cursor => c.atSeparator) _ _ _ _ hrun'
        refine .inr ⟨?_, g, rfl, ?_⟩
        · rwa [afterError_result o c₃ ho] at hresult
        · have hnoted : (c₂.note (.failure (.grammar g))).Reaches c₃ := by
            have h := synchronize.reaches (c₂.note (.failure (.grammar g)))
            simp only [afterError, run_bind, run_note, run_attempt] at ho
            split at ho <;> cases ho <;> exact h
          exact (hnoted.trans hreaches).problems_extend
  | case3 c items c₁ hp hend =>
    obtain ⟨hleads, hrun⟩ := optionalStatement_same hp
    rw [collect_ok hrun, if_pos hend]
    exact ⟨hc.leads hleads, .inl rfl⟩
  | case4 c items c₁ hp hend hagain e c₂ ht =>
    obtain ⟨hleads, hrun⟩ := optionalStatement_same hp
    have hw := (hc.leads hleads).ends (Lawful.take c₁)
    rw [run_take, ht] at hw
    rw [collect_ok hrun, if_neg hend, if_pos hagain, ht]
    exact ⟨hw, .inl rfl⟩
  | case5 c items c₁ hp hend hagain t c₂ ht further c₃ hr ih =>
    obtain ⟨hleads, hrun⟩ := optionalStatement_same hp
    obtain ⟨hw, hsame⟩ := ih ((hc.leads hleads).leads (.take ht))
    rw [collect_ok hrun, if_neg hend, if_pos hagain, ht]
    rw [hr] at hw hsame
    refine ⟨hw, ?_⟩
    rcases hsame with hsame | ⟨hresult, g, hfailure, hproblems⟩
    · exact .inl (by simp [hsame])
    · exact .inr ⟨(List.prefix_append_right_inj items).2 hresult, g, hfailure, hproblems⟩
  | case6 c items c₁ hp hend hagain =>
    obtain ⟨hleads, hrun⟩ := optionalStatement_same hp
    rw [collect_ok hrun, if_neg hend, if_neg hagain]
    exact ⟨hc.leads hleads, .inl rfl⟩

theorem shebang_lawful : Lawful shebang := by
  refine .look_bind fun k => ?_
  split
  · exact .bind (.map .take) fun _ => .pure _
  · exact .pure _

theorem program_settled (recover : Bool) (hc : c.Ordered) : Settled (program recover c) := by
  have hshebang := hc.ends (shebang_lawful c)
  unfold program
  split
  · next e c₁ hs =>
    rw [hs] at hshebang
    exact ⟨hshebang.1, fun e' he' => by cases he'; exact hshebang.2 e rfl⟩
  · next text c₁ hs =>
    rw [hs] at hshebang
    exact topLevel_settled recover hshebang.1

theorem program_agrees_or_stops (hc : c.Warned) :
    (program false c).2.Warned ∧
      (program false c).1.result.shebang = (program true c).1.result.shebang ∧
      (program true c = program false c ∨
        (program false c).1.result.statements <+: (program true c).1.result.statements ∧
          ∃ g, (program false c).1.failure = some (.grammar g) ∧
            (program false c).2.problems ++ [.failure (.grammar g)] <+:
              (program true c).2.problems) := by
  have hw := hc.ends (shebang_lawful c)
  unfold program
  rcases hs : shebang.run c with ⟨e | text, c₁⟩ <;> rw [hs] at hw
  · exact ⟨hw, rfl, .inl rfl⟩
  · obtain ⟨hw, hsame⟩ := topLevel_agrees_or_stops hw
    refine ⟨hw, rfl, ?_⟩
    rcases hsame with hsame | hprefix
    · exact .inl (by dsimp only; rw [hsame])
    · exact .inr hprefix

/-! ## Problems -/

/-- The problems of a text are found in order. -/
theorem read_sorted (source : String) (recover : Bool) :
    (read source recover).problems.Pairwise fun p q => p.offset ≤ q.offset := by
  unfold read
  split
  · exact List.pairwise_singleton _ _
  · next c hc =>
    obtain ⟨hordered, hfailure⟩ := program_settled recover (Cursor.ordered_ofString hc).1
    refine List.pairwise_append.2 ⟨hordered.sorted, ?_, fun p hp q hq => ?_⟩
    · generalize (program recover c).1.failure = failure
      cases failure with
      | none => exact .nil
      | some e => exact List.pairwise_singleton _ _
    · obtain ⟨e, he, rfl⟩ := List.mem_map.1 hq
      exact (hordered.behind p hp).trans (hfailure e (by simpa using he))

/-- Sorting the problems of a text leaves them as they are. -/
theorem parse_eq_read (source : String) (recover : Bool) :
    parse source recover = read source recover := by
  have hsorted : (read source recover).problems.mergeSort beginsBy =
      (read source recover).problems :=
    List.mergeSort_of_pairwise ((read_sorted source recover).imp fun h => by
      simpa [beginsBy, Problem.offset] using h)
  unfold parse
  dsimp only
  rw [hsorted]

end Grammar

/-- What a parse without recovery has found, and what recovery adds to it. -/
structure Parsed.ExtendedBy (first more : Parsed) : Prop where
  statements : first.program.statements <+: more.program.statements
  shebang : first.program.shebang = more.program.shebang
  diagnostics : first.diagnostics <+: more.diagnostics
  /-- There is at most one error, and it is the last thing that a reader is told. -/
  errors : first.errors = [] ∨ ∃ d, first.errors = [d] ∧ first.diagnostics.getLast? = some d
  /-- Without errors in one, there is nothing to add. -/
  same : first.errors = [] ∨ more.errors = [] → first = more

namespace Grammar

/-- What has been found when a parse ends. -/
def found (r : Outcome Program × Cursor) : Parsed :=
  ⟨r.1.result, r.2.problems ++ r.1.failure.toList.map .failure⟩

/-- If nothing but warnings has been noted, the failure is the only error. -/
theorem errors_found {r : Outcome Program × Cursor} (h : r.2.Warned) :
    (found r).errors = r.1.failure.toList.map fun e => Problem.diagnostic (.failure e) := by
  have hnone : (r.2.problems.map Problem.diagnostic).filter Diagnostic.isError = [] :=
    List.filter_eq_nil_iff.2 fun d hd => by
      obtain ⟨p, hp, rfl⟩ := List.mem_map.1 hd
      simp [h p hp]
  unfold Parsed.errors Parsed.diagnostics found
  cases r.1.failure <;> simp [hnone, Problem.isError]

/-- In front of a text nothing has been noted. -/
theorem warned_ofString {source : String} (h : Cursor.ofString source = .ok c) : c.Warned := by
  intro p hp
  simp [(Cursor.ordered_ofString h).2] at hp

/-- What is found in a text is what its program finds. -/
theorem parse_eq_found {source : String} {recover : Bool} (h : Cursor.ofString source = .ok c) :
    parse source recover = found (program recover c) := by
  rw [parse_eq_read, read, h]
  rfl

/-- Without recovery the only error of a text is the failure of its program. -/
theorem errors_parse {source : String} (h : Cursor.ofString source = .ok c) :
    (parse source false).errors =
      (program false c).1.failure.toList.map fun e => Problem.diagnostic (.failure e) := by
  rw [parse_eq_found h]
  exact errors_found (program_agrees_or_stops (warned_ofString h)).1

/-- An error that has been noted is among the errors. -/
theorem errors_found_ne_nil {r : Outcome Program × Cursor} {e : ParseError}
    (h : .failure e ∈ r.2.problems) : (found r).errors ≠ [] := by
  refine List.ne_nil_of_mem (a := Problem.diagnostic (.failure e)) (List.mem_filter.2 ⟨?_, rfl⟩)
  exact List.mem_map.2 ⟨_, List.mem_append_left _ h, rfl⟩

/-- With recovery and without it the same is found in a text, unless an error of the grammar
stops the one. Then that is its only error, and it is where the findings of the other begin. -/
theorem parse_agrees_or_stops (source : String) :
    parse source true = parse source false ∨
      ∃ ps g, (parse source false).problems = ps ++ [.failure (.grammar g)] ∧
        (∀ p ∈ ps, p.isError = false) ∧
          (parse source false).problems <+: (parse source true).problems := by
  rw [parse_eq_read, parse_eq_read]
  unfold read
  split
  · exact .inl rfl
  · next c hc =>
    obtain ⟨hw, -, hsame | ⟨-, g, hfailure, hproblems⟩⟩ := program_agrees_or_stops (warned_ofString hc)
    · exact .inl (by rw [hsame])
    · have hfound : (found (program false c)).problems =
          (program false c).2.problems ++ [.failure (.grammar g)] := by
        simp [found, hfailure]
      refine .inr ⟨_, g, hfound, hw, ?_⟩
      change (found (program false c)).problems <+: _
      rw [hfound]
      exact hproblems.trans (List.prefix_append _ _)

/-- A text without errors is read the same in both ways. -/
theorem parse_eq_of_errors_eq_nil {source : String} {recover again : Bool}
    (h : (parse source recover).errors = []) : parse source recover = parse source again := by
  have hsame : parse source true = parse source false := by
    rcases parse_agrees_or_stops source with hsame | ⟨ps, g, hproblems, -, hprefix⟩
    · exact hsame
    · have hmem : Problem.failure (.grammar g) ∈ (parse source recover).problems := by
        have hfirst : Problem.failure (.grammar g) ∈ (parse source false).problems := by
          simp [hproblems]
        cases recover with
        | false => exact hfirst
        | true => exact hprefix.subset hfirst
      have herror : (Problem.failure (.grammar g)).diagnostic ∈ (parse source recover).errors :=
        List.mem_filter.2 ⟨List.mem_map_of_mem hmem, rfl⟩
      simp [h] at herror
  cases recover <;> cases again <;> simp only [hsame]

/-- Recovery keeps all that is found without it, and adds to it only if there is an error. -/
theorem parse_extends (source : String) : (parse source false).ExtendedBy (parse source true) := by
  rw [parse_eq_read, parse_eq_read]
  unfold read
  split
  · exact ⟨List.prefix_refl _, rfl, List.prefix_refl _, .inr ⟨_, rfl, rfl⟩, fun _ => rfl⟩
  · next c hc =>
    obtain ⟨hw, hshebang, hsame⟩ := program_agrees_or_stops (warned_ofString hc)
    change (found (program false c)).ExtendedBy (found (program true c))
    have herrors := errors_found hw
    rcases hsame with hsame | ⟨hresult, g, hfailure, hproblems⟩
    · rw [hsame]
      refine ⟨List.prefix_refl _, rfl, List.prefix_refl _, ?_, fun _ => rfl⟩
      cases hfailure : (program false c).1.failure with
      | none => exact .inl (by simp [herrors, hfailure])
      | some e =>
        refine .inr ⟨_, by rw [herrors, hfailure]; rfl, ?_⟩
        simp [Parsed.diagnostics, found, hfailure]
    · have hdiagnostics : (found (program false c)).problems =
          (program false c).2.problems ++ [.failure (.grammar g)] := by
        simp [found, hfailure]
      refine ⟨hresult, hshebang, ?_, .inr ⟨_, by rw [herrors, hfailure]; rfl, ?_⟩, fun h => ?_⟩
      · unfold Parsed.diagnostics
        rw [hdiagnostics]
        exact (hproblems.trans (List.prefix_append _ _)).map _
      · simp [Parsed.diagnostics, hdiagnostics]
      · have hmem : .failure (.grammar g) ∈ (program true c).2.problems :=
          hproblems.subset (by simp)
        rcases h with h | h
        · simp [herrors, hfailure] at h
        · exact absurd h (errors_found_ne_nil hmem)

end Grammar
end WqSource
