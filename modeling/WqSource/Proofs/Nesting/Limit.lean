import WqSource.Proofs.Complete.Format
import WqSource.Proofs.Complete.Spelling
import WqSource.Proofs.Nesting.Session
import WqSource.Proofs.Tree.Levels

/-!
# The limit of nesting is exact

What is read has no more levels than the limit. The other way round, what has no more levels
than the limit is read: an expression in braces is read back from its text as long as its levels
and the pairs of braces together are within the limit. One more pair, and the statement ends at
the limit, which is the only error then.

## Main definitions

* `Grammar.NestingExact`: what it means for the limit to be exact, and for the counter to be in
  balance.

## Main statements

* `Grammar.nesting_exact`.
-/

namespace WqSource
namespace Grammar
open Nesting WqSource.Parser

variable {n : Nat} {e : Expr} {c : Cursor}

/-- What can be read has no more levels than the limit. -/
theorem levels_le_of_regular (he : e.Regular maxDepth) : e.levels ≤ maxNesting :=
  (Expr.regular_iff_levels.1 he).2

/-- What has more levels than the limit is not read from its tokens: the statement ends at the
limit. -/
theorem statement_stops (he : e.Regular n) (hlevels : maxNesting < e.levels) (hlegal : c.Legal)
    (hc : c.Views e.kinds) :
    ∃ g c', (statement (level maxNesting)).run c = (.error (.grammar g), c') ∧
      g.expected = .shallowerNesting maxNesting := by
  have hle : maxNesting ≤ n + 1 := hlevels.le.trans (Expr.regular_iff_levels.1 he).2
  have hcounts := statement_counts (inner_counts maxNesting false 0)
  obtain hsame | hstops := agrees_or_stops hcounts hle c
  · exfalso
    -- With enough levels it is read, so here it would have been read with more than there are.
    have hend : (Token.Kind.front []).joinsAt? true = none := rfl
    obtain ⟨s, c', hrun, hs, -⟩ := statement_rereads (level_complete (n + 1)) ⟨n, rfl, he⟩ hend c
      (by rwa [List.append_nil])
    obtain ⟨-, hregular⟩ := statement_regular hlegal s c' (hsame.trans hrun)
    cases s with
    | magic => cases hs
    | expression e' =>
      have herase : e'.erase = e.erase := Statement.expression.inj hs
      have hlevels' : e'.levels = e.levels := by
        rw [← Expr.levels_erase e', herase, Expr.levels_erase]
      have := levels_le_of_regular hregular
      omega
  · exact hstops

/-- What ends the first statement of a text without a shebang line ends the program. -/
theorem program_failure {e' : ParseError} {c' : Cursor}
    (hstart : c.current.kind.startsExpression = true)
    (hrun : (statement (level maxNesting)).run c = (.error e', c')) :
    (program false c).1.failure = some e' := by
  have hshebang : shebang.run c = (.ok none, c) := by
    unfold shebang
    rw [run_bind, run_look]
    dsimp only
    split
    · next text h =>
      rw [h] at hstart
      cases hstart
    · rfl
  have hbegin : atStatementEnd c = false := by
    have hword := Token.Kind.isWord_of_startsExpression hstart
    simpa [Token.Kind.isWord, atStatementEnd, Cursor.atSeparator, Cursor.atEnd] using hword
  have hpart : (optionalStatement false).run c = (.ok ⟨[], some e'⟩, c') := by
    rw [run_optionalStatement, if_neg (by simp [hbegin]), hrun]
    rfl
  simp only [program, hshebang, topLevel, collect_failed hpart]

/-- The text of a regular tree is read without errors, or the limit is its only error. -/
theorem parse_text_levels (he : e.Regular n) (hvalid : ∀ k ∈ e.kinds, k.Valid) (l : Layout) :
    e.levels ≤ maxNesting ∧ (parse (e.text l) false).errors = [] ∨
      maxNesting < e.levels ∧ ∃ g : GrammarError, g.expected = .shallowerNesting maxNesting ∧
        (parse (e.text l) false).errors = [(Problem.failure (.grammar g)).diagnostic] := by
  obtain ⟨c, hsource, hc⟩ := Cursor.views_of_shows (he.shows hvalid l)
  rcases Nat.lt_or_ge maxNesting e.levels with hlevels | hlevels
  · right
    obtain ⟨g, c', hrun, hg⟩ := statement_stops he hlevels (legal_ofString hsource) hc
    refine ⟨hlevels, g, hg, ?_⟩
    have hstart : c.current.kind.startsExpression = true := by
      obtain ⟨k, ks, hkinds, hstart, -⟩ := Expr.kinds_eq_cons he
      rw [hc.kind, hkinds]
      exact hstart
    rw [errors_parse hsource, program_failure hstart hrun]
    rfl
  · left
    have he' : e.Regular maxDepth :=
      Expr.regular_iff_levels.2 ⟨(Expr.regular_iff_levels.1 he).1, hlevels⟩
    have hkinds : (Program.mk none [.expression e] default).kinds ++ [] = e.kinds := by
      rw [List.append_nil, Program.kinds_eq]
      simp
    refine ⟨hlevels, (parse_rereads (p := ⟨none, [.expression e], default⟩) ?_ (.inl rfl) hsource
      (hkinds ▸ hc)).1⟩
    simpa [Statement.Regular] using he'

/-- A text in pairs of braces. -/
def inBraces (k : Nat) (text : String) : String :=
  String.ofList (List.replicate k '{') ++ text ++ String.ofList (List.replicate k '}')

/-- The limit of nesting, as the parses of a text and the calls of a parser of the text have it. -/
structure NestingExact (source : String) : Prop where
  /-- No expression of a program stands at a level above the limit. -/
  within : ∀ (recover : Bool) (e : Expr),
    .expression e ∈ (parse source recover).program.statements →
      ∀ (k : Nat) (x : Expr), x.Within k e → k + 1 ≤ maxNesting
  /-- The text of a statement can have as many pairs of braces around it as are within the limit
  together with its levels. -/
  braced : ∀ (recover : Bool) (e : Expr),
    .expression e ∈ (parse source recover).program.statements →
      ∀ (l : Layout) (k : Nat) (again : Bool),
        (parse (inBraces k (e.text l)) again).errors = [] ↔ e.levels + k ≤ maxNesting
  /-- With more of them the only error without recovery is that nesting is to be shallower. -/
  stops : ∀ (recover : Bool) (e : Expr),
    .expression e ∈ (parse source recover).program.statements →
      ∀ (l : Layout) (k : Nat), maxNesting < e.levels + k →
        ∃ g : GrammarError, g.expected = .shallowerNesting maxNesting ∧
          (parse (inBraces k (e.text l)) false).errors = [(Problem.failure (.grammar g)).diagnostic]
  /-- Whatever a parser of the text is called for, one call after another, there is a run with the
  counter, and the counter is zero behind every run. -/
  balanced : ∀ (recover : Bool) (c : Cursor), Cursor.ofString source = .ok c →
    ∀ calls : List Call,
      (∃ answers s, Session.Steps ⟨c, recover, 0⟩ calls answers s) ∧
        ∀ answers s, Session.Steps ⟨c, recover, 0⟩ calls answers s → s.nesting = 0

/-- The limit of nesting is exact, and the counter is in balance. -/
theorem nesting_exact (source : String) : NestingExact source := by
  have hregular (recover : Bool) (e : Expr)
      (he : .expression e ∈ (parse source recover).program.statements) : e.Regular maxDepth :=
    parse_regular source recover (.expression e) he
  have htext (recover : Bool) (e : Expr)
      (he : .expression e ∈ (parse source recover).program.statements) (l : Layout) (k : Nat) :
      e.levels + k ≤ maxNesting ∧ (parse (inBraces k (e.text l)) false).errors = [] ∨
        maxNesting < e.levels + k ∧
          ∃ g : GrammarError, g.expected = .shallowerNesting maxNesting ∧
            (parse (inBraces k (e.text l)) false).errors =
              [(Problem.failure (.grammar g)).diagnostic] := by
    have hvalid := Expr.forall_kinds_braced (P := Token.Kind.Valid) k trivial trivial
      ((parse_writable source recover).valid _ he)
    have hbraced := parse_text_levels ((hregular recover e he).braced k) hvalid l
    rwa [Expr.levels_braced, Expr.text_braced] at hbraced
  refine ⟨?_, ?_, ?_, ?_⟩
  · intro recover e he k x hx
    exact Expr.levels_le_iff_within.1 (levels_le_of_regular (hregular recover e he)) k x hx
  · intro recover e he l k again
    rcases htext recover e he l k with ⟨hlevels, hnone⟩ | ⟨hlevels, g, -, herror⟩
    · refine iff_of_true ?_ hlevels
      rw [← parse_eq_of_errors_eq_nil hnone]
      exact hnone
    · refine iff_of_false (fun hnone => ?_) (by omega)
      have hsame : parse (inBraces k (e.text l)) again = parse (inBraces k (e.text l)) false :=
        parse_eq_of_errors_eq_nil hnone
      rw [hsame, herror] at hnone
      cases hnone
  · intro recover e he l k hlevels
    rcases htext recover e he l k with ⟨hlevels', -⟩ | ⟨-, hstops⟩
    · omega
    · exact hstops
  · intro recover c _ calls
    have hsteps (answers : List Answer) (s : Session) :
        Session.Steps ⟨c, recover, 0⟩ calls answers s ↔
          (answers, s) = Session.serveAll ⟨c, recover, 0⟩ calls :=
      Session.steps_iff rfl
    refine ⟨⟨_, _, (hsteps _ _).2 rfl⟩, fun answers s h => ?_⟩
    have hs : s = (Session.serveAll ⟨c, recover, 0⟩ calls).2 :=
      congrArg Prod.snd ((hsteps answers s).1 h)
    rw [hs, Session.nesting_serveAll]

/-- A name in as many pairs of braces as are within the limit, and in one more. -/
theorem nesting_exact_name :
    (parse (inBraces 23 "a") false).errors = [] ∧
      ∃ g : GrammarError, g.expected = .shallowerNesting maxNesting ∧
        (parse (inBraces 24 "a") false).errors = [(Problem.failure (.grammar g)).diagnostic] := by
  have hread : (parse "a" false).program.statements.any
      (fun s => s.expression?.any (·.text .pretty == "a")) = true := by
    decide +kernel
  have hwithin : (parse (inBraces 23 "a") false).errors = [] := by decide +kernel
  obtain ⟨s, hs, hexpression⟩ := List.any_eq_true.1 hread
  cases s with
  | magic => cases hexpression
  | expression e =>
    have htext : e.text .pretty = "a" := by simpa [Statement.expression?] using hexpression
    have hlevels : 1 ≤ e.levels := (Expr.levels_le_iff.1 le_rfl).2.2
    have hstops := (nesting_exact "a").stops false e hs .pretty 24 (by simp only [maxNesting]; omega)
    rw [htext] at hstops
    exact ⟨hwithin, hstops⟩

end Grammar
end WqSource
