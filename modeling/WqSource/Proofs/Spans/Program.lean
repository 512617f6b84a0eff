import WqSource.Proofs.Grammar.Recovery
import WqSource.Proofs.Spans.Operator

/-!
# Spans of programs

The statements of a program stand in a row in its span, whatever errors there are between them
and wherever the parse stops. All that is inside them is orderly: every node has some text, its
parts stand in it one behind the other, and nothing is out of the text that was parsed.

## Main definitions

* `Program.Orderly`: a program whose spans fit a text of a given length.

## Main statements

* `topLevel_lays`: the statements of a program.
* `parse_orderly`: the spans of every program.
-/

namespace WqSource
open Grammar WqSource.Parser

namespace Parser
variable {α : Type} {n : Nat} {c : Cursor}

/-- What is collected stands in a row if what each part gives does. -/
theorem collect_lays {again : Cursor → Bool} {part : Parser (Outcome (List α))} {f : α → List Node}
    (hpart : ∀ c : Cursor, c.Placed n →
      part.Ensures c fun o c' => c.Lays n (o.result.flatMap f) c')
    (hc : c.Placed n) :
    c.Lays n ((collect again part c).1.result.flatMap f) (collect again part c).2 := by
  have hreaches (c : Cursor) : c.Reaches (part.run c).2 := part.reaches c
  fun_induction collect again part c with
  | case1 c e c₁ hp => exact hc.reaches (by simpa [hp] using hreaches c)
  | case2 c items e c₁ hp => exact hpart c hc _ _ hp
  | case3 c items c₁ hp => exact hpart c hc _ _ hp
  | case4 c items c₁ hp _ _ e c₂ ht =>
    have h₁ := hpart c hc _ _ hp
    exact h₁.before (h₁.placed.reaches (by simpa [ht] using Cursor.Reaches.take (.refl c₁)))
  | case5 c items c₁ hp _ _ t c₂ ht further c₃ hr ih =>
    have h₁ := hpart c hc _ _ hp
    have h₂ := h₁.placed.lays_take ht
    have h₃ := h₂.behind (ih h₂.placed)
    rw [hr] at h₃
    simpa using h₁.trans h₃
  | case6 c items c₁ hp => exact hpart c hc _ _ hp

end Parser

namespace Grammar
variable {n : Nat} {c : Cursor}

theorem optionalStatement_lays {recover : Bool} (hc : c.Placed n) :
    (optionalStatement recover).Ensures c fun o c' =>
      c.Lays n (o.result.flatMap fun s => [.statement s]) c' := by
  have hafter (read : List Statement) {e : ParseError} {c₁ : Cursor}
      (h₁ : c.Lays n (read.flatMap fun s => [.statement s]) c₁) :
      (afterError recover read e).Ensures c₁ fun o c' =>
        c.Lays n (o.result.flatMap fun s => [.statement s]) c' := by
    refine (afterError_result.and ((afterError recover read e).lays h₁.placed)).mono ?_
    rintro o c₂ ⟨hresult, h₂⟩
    rw [hresult]
    exact h₁.before h₂
  refine Ensures.look_bind ?_
  split
  · exact Ensures.pure (.refl hc)
  · refine Ensures.bind (Ensures.attempt ?_)
    have hreaches := (statement (level maxNesting)).reaches c
    split
    · exact hafter [] (hc.reaches hreaches)
    · next s hs =>
      have hyields := statement_yields (level_spanned n maxNesting) hc s _ (Prod.ext hs rfl)
      have hrow := hyields.lays hc
      refine Ensures.look_bind ?_
      split
      · exact Ensures.pure hrow
      · exact Ensures.look_bind (hafter [s] hrow)

/-- The statements of a program stand in a row. -/
theorem topLevel_lays (recover : Bool) (hc : c.Placed n) :
    c.Lays n ((topLevel recover c).1.result.map .statement) (topLevel recover c).2 := by
  rw [List.map_eq_flatMap]
  exact collect_lays (fun _ hc => optionalStatement_lays hc) hc

end Grammar

/-- The spans of a program fit a text of `n` bytes. -/
structure Program.Orderly (n : Nat) (p : Program) : Prop where
  /-- Every node inside a statement fits its parts. -/
  nodes : ∀ s ∈ p.statements, ∀ x : Node, x.Within (.statement s) → x.Orderly
  /-- Nothing is out of the text. -/
  inside : ∀ s ∈ p.statements, ∀ x : Node, x.Within (.statement s) → x.stop ≤ n
  /-- The statements do not overlap, and come in order. -/
  ordered : p.statements.Pairwise fun s t => s.span.stop.offset ≤ t.span.start.offset
  /-- The statements stand inside the program. -/
  covered : ∀ s ∈ p.statements,
    p.span.start.offset ≤ s.span.start.offset ∧ s.span.stop.offset ≤ p.span.stop.offset
  /-- The program is no longer than the text. -/
  span_le : p.span.stop.offset ≤ n

namespace Grammar
variable {n : Nat} {c : Cursor}

theorem program_orderly (recover : Bool) (hc : c.Placed n) :
    (program recover c).1.result.Orderly n := by
  unfold program
  split
  · next e c₁ hs =>
    have hreaches := shebang.reaches c
    rw [hs] at hreaches
    have hinside := (hc.reaches hreaches).placed.inside
    exact ⟨by simp, by simp, .nil, by simp, hinside⟩
  · next text c₁ hs =>
    have hreaches := shebang.reaches c
    rw [hs] at hreaches
    have hc₁ := (hc.reaches hreaches).placed
    obtain ⟨hlaid, hc₂⟩ := topLevel_lays recover hc₁
    have hspan : (topLevel recover c₁).2.lastEnd.offset ≤
        (topLevel recover c₁).2.current.span.stop.offset := Nat.le_trans hc₂.behind hc₂.ordered
    have hrow {s : Statement} (hs : s ∈ (topLevel recover c₁).1.result) :
        (Node.statement s).Nested ∧
          (Node.statement s).stop ≤ (topLevel recover c₁).2.lastEnd.offset := by
      obtain ⟨hnested, -, hstop⟩ := hlaid.inside (List.mem_map_of_mem hs)
      exact ⟨hnested, hstop⟩
    refine ⟨fun s hs => (hrow hs).1, fun s hs x hx => ?_, List.pairwise_map.1 hlaid.ordered,
      fun s hs => ⟨Nat.zero_le _, Nat.le_trans (hrow hs).2 hspan⟩, hc₂.inside⟩
    obtain ⟨hnested, hstop⟩ := hrow hs
    obtain ⟨-, hle⟩ := hnested.within hx
    have hinside := hc₂.inside
    exact Nat.le_trans hle (Nat.le_trans hstop (Nat.le_trans hspan hinside))

theorem read_orderly (source : String) (recover : Bool) :
    (read source recover).program.Orderly source.utf8ByteSize := by
  unfold read
  split
  · have hnone (s : Statement) : s ∉ (default : Program).statements := List.not_mem_nil
    exact ⟨fun s hs => absurd hs (hnone s), fun s hs => absurd hs (hnone s), .nil,
      fun s hs => absurd hs (hnone s), Nat.zero_le _⟩
  · next c hc => exact program_orderly recover (Cursor.placed_ofString hc)

/-- The spans of every program that is parsed, with recovery or without, fit its text. -/
theorem parse_orderly (source : String) (recover : Bool) :
    (parse source recover).program.Orderly source.utf8ByteSize := by
  rw [parse_eq_read]
  exact read_orderly source recover

end Grammar
end WqSource
