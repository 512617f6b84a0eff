import WqSource.Proofs.Grammar.Apart
import WqSource.Proofs.Warnings.Grammar

/-!
# What a reader is warned of

If there are no errors in a text, a reader is told of the legacy spellings in it and of nothing
else. Each use of such a name in the program is told once, in the order in which the names are
written.

## Main statements

* `topLevel_warns`: the statements of a program.
* `parse_warnings`: the diagnostics of a text without errors.
-/

namespace WqSource.Grammar
open WqSource.Parser

variable {c c₁ : Cursor} {items : List Statement}

/-- A part of a program that does not fail has noted the warnings of its statement. -/
theorem optionalStatement_warns (h : (optionalStatement false).run c = (.ok ⟨items, none⟩, c₁)) :
    c.Warns (items.map .statement) c₁ := by
  rcases optionalStatement_clean h with ⟨rfl, rfl⟩ | ⟨s, rfl, hs⟩
  · exact .refl
  · exact statement_warns (level_warns maxNesting).expression c s _ hs

/-- Statements that are read without a failure have their warnings noted. The induction is on the
statements that are still to be read. -/
theorem topLevel_warns (h : (topLevel false c).1.failure = none) :
    c.Warns ((topLevel false c).1.result.map .statement) (topLevel false c).2 := by
  unfold topLevel at *
  fun_induction collect (·.atSeparator) (optionalStatement false) c with
  | case1 | case2 | case4 => cases h
  | case3 c items c₁ hp | case6 c items c₁ hp => exact optionalStatement_warns hp
  | case5 c items c₁ hp _ _ t c₂ ht further c₃ hr ih =>
    rw [hr] at ih
    have hfirst := (optionalStatement_warns hp).before (.take ht)
    simpa using hfirst.trans (ih h)

theorem shebang_silent : Silent shebang := by
  refine .bind (.look _) fun k => ?_
  split
  · exact .bind .discard_take fun _ => .pure _
  · exact .pure _

theorem program_warns (h : (program false c).1.failure = none) :
    c.Warns ((program false c).1.result.statements.map .statement) (program false c).2 := by
  have hshebang := shebang_silent c
  unfold program at *
  split
  · next e c₁ hs =>
    rw [hs] at h
    cases h
  · next shebang c₁ hs =>
    rw [hs] at h
    exact (hshebang shebang c₁ hs).behind (topLevel_warns h)

/-- What is noted in a text without errors. -/
theorem problems_parse {source : String} (h : (parse source false).errors = []) :
    (parse source false).problems =
      (parse source false).program.nodes.filterMap Node.warning? := by
  cases hc : Cursor.ofString source with
  | error e =>
    rw [parse_eq_read] at h
    unfold read at h
    rw [hc] at h
    cases h
  | ok c =>
    rw [errors_parse hc, List.map_eq_nil_iff, Option.toList_eq_nil_iff] at h
    have hempty := (Cursor.ordered_ofString hc).2
    have hwarns := program_warns h
    unfold Cursor.Warns at hwarns
    rw [hempty, List.nil_append] at hwarns
    rw [parse_eq_read]
    unfold read
    rw [hc]
    dsimp only
    rw [h, hwarns]
    exact List.append_nil _

/-- A reader of a text without errors is told, in order, of every use of a name that spells the
word of a constant, once and at its place, and of nothing else. -/
theorem parse_warnings {source : String} {recover : Bool}
    (h : (parse source recover).errors = []) :
    (parse source recover).diagnostics =
        ((parse source recover).program.nodes.filterMap Node.warning?).map Problem.diagnostic ∧
      (parse source recover).diagnostics.Pairwise fun d d' =>
        d.span.start.offset < d'.span.start.offset := by
  constructor
  · have hsame : parse source recover = parse source false := parse_eq_of_errors_eq_nil h
    rw [hsame] at h ⊢
    rw [Parsed.diagnostics, problems_parse h]
  · rw [Parsed.diagnostics, parse_eq_read]
    refine List.pairwise_map.2 ((read_apart source recover).imp fun hlt => ?_)
    simpa [Problem.offset] using hlt

/-- Of two capitalised words, one is a parameter, the other a name in the body. -/
theorem parse_warnings_parameter :
    (parse "{[NaN] Inf + inf}" true).errors = [] ∧
      (parse "{[NaN] Inf + inf}" true).diagnostics =
        ((parse "{[NaN] Inf + inf}" true).program.nodes.filterMap Node.warning?).map
          Problem.diagnostic ∧
      (parse "{[NaN] Inf + inf}" true).diagnostics.map (·.span.start.offset) = [7] := by
  have herrors : (parse "{[NaN] Inf + inf}" true).errors = [] := by decide +kernel
  exact ⟨herrors, (parse_warnings herrors).1, by decide +kernel⟩

end WqSource.Grammar
