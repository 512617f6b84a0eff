import WqSource.Proofs.Nesting.Limit
import WqSource.Proofs.Tree.Height

/-!
# The limit of nesting and the height of trees

The limit of nesting bounds the height of the trees that are read only as far as their runs of
operators are short. A run counts as one level however long it is, and as it is grouped from the
left, there is no bound on the height of what is read.

## Main statements

* `Grammar.height_le_of_occursIn`: what limits the height of an expression in a program.
* `Grammar.parse_sum`: sums of any length are read.
* `Grammar.height_parse`: how high an expression in a program can be.
* `Grammar.exists_lt_height`: there is no bound without its runs.
-/

namespace WqSource.Grammar
open WqSource.Parser

theorem valid_sum (k : Nat) : ∀ t ∈ (Expr.sum k).kinds, t.Valid := by
  have hone : ∀ t ∈ (Expr.literal default (.integer 1)).kinds, t.Valid := by
    intro t ht
    obtain rfl : t = .integer 1 := by simpa [Expr.kinds, Expr.pieces, Literal.kind] using ht
    exact ⟨by decide, by decide⟩
  induction k with
  | zero => exact hone
  | succ k ih =>
    intro t ht
    rw [Expr.sum, Expr.kinds_binary, List.mem_append, List.mem_cons] at ht
    rcases ht with ht | rfl | ht
    · exact ih t ht
    · trivial
    · exact hone t ht

/-- A sum is read from its text, however long it is. -/
theorem parse_sum (k : Nat) :
    (parse ((Expr.sum k).text .compact) false).errors = [] ∧
      (parse ((Expr.sum k).text .compact) false).program.erase.statements =
        [.expression (Expr.sum k).erase] := by
  obtain ⟨c, hsource, hc⟩ :=
    Cursor.views_of_shows ((Expr.regular_sum (n := maxDepth) k).shows (valid_sum k) .compact)
  have hkinds : (Program.mk none [.expression (Expr.sum k)] default).kinds ++ [] =
      (Expr.sum k).kinds := by
    rw [List.append_nil, Program.kinds_eq]
    simp
  obtain ⟨herrors, herase⟩ := parse_rereads (p := ⟨none, [.expression (Expr.sum k)], default⟩)
    (by simpa [Statement.Regular] using Expr.regular_sum k) (.inl rfl) hsource (hkinds ▸ hc)
  refine ⟨herrors, ?_⟩
  rw [herase]
  simp [Program.erase, Statement.erase]

/-- A sum is a statement of the program in its text, but for its places. -/
theorem exists_sum (k : Nat) :
    ∃ x : Expr, x.OccursIn (parse ((Expr.sum k).text .compact) false).program ∧
      x.erase = (Expr.sum k).erase := by
  obtain ⟨-, hstatements⟩ := parse_sum k
  generalize parse ((Expr.sum k).text .compact) false = parsed at hstatements ⊢
  obtain ⟨s, hs, herase⟩ : ∃ s ∈ parsed.program.statements,
      s.erase = .expression (Expr.sum k).erase := by
    have hmem : Statement.expression (Expr.sum k).erase ∈ parsed.program.erase.statements := by
      simp [hstatements]
    exact List.mem_map.1 hmem
  cases s with
  | magic => simp [Statement.erase] at herase
  | expression x => exact ⟨x, ⟨x, hs, 0, .refl x⟩, Statement.expression.inj herase⟩

/-- Whatever is a sum but for its places is as high as that. -/
theorem lt_height_of_erase {x : Expr} {k : Nat} (h : x.erase = (Expr.sum k).erase) :
    k < x.height := by
  rw [← Expr.height_erase x, h, Expr.height_erase]
  exact Expr.height_sum k

/-- An expression in a program is no higher than the limit of nesting and its runs allow. -/
theorem height_le_of_occursIn {source : String} {recover : Bool} {x : Expr} {r : Nat}
    (hx : x.OccursIn (parse source recover).program) (hr : x.RunsAtMost r) :
    x.height ≤ (3 * r + 9) * maxNesting := by
  obtain ⟨e, he, k, hk⟩ := hx
  have hregular : e.Regular maxDepth := parse_regular source recover _ he
  exact Expr.height_le_of_regular (hregular.of_within hk) hr

/-- The height of the expressions in programs is bounded by the limit of nesting together with
their runs. -/
theorem height_parse {source : String} {recover : Bool} {x : Expr} {r : Nat}
    (hx : x.OccursIn (parse source recover).program) (hr : x.RunsAtMost r) :
    x.height ≤ (3 * r + 9) * maxNesting ∧ (r ≤ 2 → x.height ≤ 16 * maxNesting) := by
  have hle := height_le_of_occursIn hx hr
  exact ⟨hle, fun hr => hle.trans (Nat.mul_le_mul_right _ (by omega))⟩

/-- A sum of three ones is less high than it might be. -/
theorem height_parse_sum :
    ∃ x : Expr, x.OccursIn (parse "1+1+1" false).program ∧ x.RunsAtMost 2 ∧
      2 < x.height ∧ x.height ≤ 16 * maxNesting := by
  have htext : (Expr.sum 2).text .compact = "1+1+1" := by decide +kernel
  obtain ⟨x, hx, herase⟩ := exists_sum 2
  rw [htext] at hx
  have hruns : x.RunsAtMost 2 := Expr.runsAtMost_erase.1 <| by
    rw [herase, Expr.runsAtMost_erase]
    exact Expr.runsAtMost_sum 2
  exact ⟨x, hx, hruns, lt_height_of_erase herase, (height_parse hx hruns).2 le_rfl⟩

/-- The limit of nesting alone does not bound the height: a text without errors may have an
expression of any height. -/
theorem exists_lt_height (n : Nat) :
    ∃ source, (parse source false).errors = [] ∧
      ∃ x : Expr, x.OccursIn (parse source false).program ∧ n < x.height := by
  obtain ⟨x, hx, herase⟩ := exists_sum n
  exact ⟨_, (parse_sum n).1, x, hx, lt_height_of_erase herase⟩

/-- One more one in a sum than the limit of nesting would allow. -/
theorem lt_height_ones :
    (parse ((Expr.sum (16 * maxNesting)).text .compact) false).errors = [] ∧
      ∃ x : Expr,
        x.OccursIn (parse ((Expr.sum (16 * maxNesting)).text .compact) false).program ∧
          16 * maxNesting < x.height := by
  obtain ⟨x, hx, herase⟩ := exists_sum (16 * maxNesting)
  exact ⟨(parse_sum _).1, x, hx, lt_height_of_erase herase⟩

end WqSource.Grammar
