import WqSource.Grammar.Block
import WqSource.Proofs.Spans.Cursor

/-!
# Spans between brackets

Items, entries and statements stand in a row between the brackets around them, whatever
separates them. A branch takes its span from its statements alone.

## Main definitions

* `Grammar.Inner.Spanned`: what is asked of the parsers of expressions.

## Main statements

* `separated_lays`: sequences with separators.
* `items_lays`, `functionBody_lays`, `arm_lays`, `firstArm_lays`, `head_lays`.
-/

namespace WqSource
open Grammar WqSource.Parser

variable {α : Type} {n : Nat} {c : Cursor} {inner : Inner}

/-- Whatever a parser does, it does not go back. -/
theorem Parser.lays (p : Parser α) (hc : c.Placed n) : p.Ensures c fun _ c' => c.Lays n [] c' := by
  intro a c' h
  have hreaches := p.reaches c
  rw [h] at hreaches
  exact hc.reaches hreaches

namespace Grammar

/-- Every expression is all there is between the cursors in front of it and behind it. -/
structure Inner.Spanned (n : Nat) (inner : Inner) : Prop where
  expression : ∀ c : Cursor, c.Placed n →
    inner.expression.Ensures c fun e c' => c.Yields n (.expression e) c'
  exponent : ∀ c : Cursor, c.Placed n →
    inner.exponent.Ensures c fun e c' => c.Yields n (.expression e) c'

theorem Inner.Spanned.lays (hi : inner.Spanned n) (hc : c.Placed n) :
    inner.expression.Ensures c fun e c' => c.Lays n [.expression e] c' :=
  (hi.expression c hc).mono fun _ _ h => h.lays hc

/-! ## Sequences -/

/-- If each item lays its nodes, a sequence lays those of all items. -/
theorem separated_lays {f : α → List Node} {item : Parser α}
    {separator : Cursor → Option (Token → Parser Unit)} {stop : Cursor → Bool}
    (hitem : ∀ c : Cursor, c.Placed n → item.Ensures c fun a c' => c.Lays n (f a) c')
    (hc : c.Placed n) : (separated item separator stop).Ensures c fun as c' =>
      c.Lays n ((as.1 :: as.2).flatMap f) c' := by
  refine Ensures.bind ((hitem c hc).mono fun first c₁ h₁ => Ensures.bind ((Ensures.repeatTaking
    (I := fun rest c' => c.Lays n ((first :: rest).flatMap f) c') (by simpa using h₁) ?_).mono
      fun rest c' h => Ensures.pure h.1))
  intro rest c₂ goOn c₃ hI hn ht
  obtain ⟨goOn', -, rfl⟩ := Option.map_eq_some_iff.1 hn
  have h₃ := hI.before (hI.placed.lays_take ht)
  refine Ensures.bind (((goOn' c₂.current).lays h₃.placed).mono fun _ c₄ h₄ =>
    Ensures.look_bind ?_)
  split
  · exact Ensures.pure (h₃.before h₄)
  · refine Ensures.bind ((hitem c₄ h₄.placed).mono fun a c₅ h₅ => Ensures.pure ?_)
    simpa using (h₃.before h₄).trans h₅

/-- Items stand in a row in front of their closing bracket. -/
theorem items_lays {f : α → List Node} {close : Punct} {item : Parser α}
    (hitem : ∀ c : Cursor, c.Placed n → item.Ensures c fun a c' => c.Lays n (f a) c')
    (hc : c.Placed n) :
    (items close item).Ensures c fun as c' => c.Lays n (as.flatMap f) c' := by
  refine Ensures.bind ((skipNewlines.lays hc).mono fun _ c₁ h₁ => Ensures.look_bind ?_)
  have hclose {as : List α} {c₂ : Cursor} (h₂ : c.Lays n (as.flatMap f) c₂) :
      (expect close (.itemEnd close) >>= fun _ => Pure.pure as).Ensures c₂ fun as c' =>
        c.Lays n (as.flatMap f) c' :=
    Ensures.bind (((expect close (.itemEnd close)).lays h₂.placed).mono fun _ c₃ h₃ =>
      Ensures.pure (h₂.before h₃))
  split
  · exact Ensures.bind (Ensures.pure (hclose h₁))
  · refine Ensures.bind ((separated_lays hitem h₁.placed).mono ?_)
    rintro ⟨first, rest⟩ c₂ h₂
    exact Ensures.bind (Ensures.pure (hclose (h₁.behind h₂)))

/-! ## Statements -/

theorem statement_yields (hi : inner.Spanned n) (hc : c.Placed n) :
    (statement inner).Ensures c fun s c' => c.Yields n (.statement s) c' := by
  refine Ensures.look_bind ?_
  split
  · next payload hk =>
    refine Ensures.bind (Ensures.take fun c₁ ht => Ensures.pure ?_)
    obtain ⟨hplaced, hlast⟩ := hc.take ht
    have hlt := hc.nonempty (by simp [Cursor.atEnd, hk])
    exact ⟨rfl, hlast.symm, Node.nested_of_laid hlt (Nat.le_of_lt hlt) (by simp), hplaced⟩
  · refine Ensures.bind ((hi.expression c hc).mono fun e c' h => Ensures.pure ?_)
    have hlt := (Node.nested_iff.1 h.nested).1.nonempty
    refine ⟨h.start, h.stop, Node.nested_of_laid hlt ?_ (by simp), h.placed⟩
    exact .single h.nested (Nat.le_refl _) (Nat.le_refl _)

/-- Statements in a row, of which a branch was made. -/
def LaysBranch (n : Nat) (c : Cursor) (b : Branch) (c' : Cursor) : Prop :=
  ∃ first rest, b = .ofStatements first rest ∧ c.Lays n ((first :: rest).map .statement) c'

theorem LaysBranch.lays {b : Branch} {c' : Cursor} (h : LaysBranch n c b c') :
    c.Lays n [.branch b] c' := by
  obtain ⟨first, rest, rfl, hrow⟩ := h
  exact ⟨hrow.laid.branch, hrow.placed⟩

theorem LaysBranch.behind {b : Branch} {c₁ c' : Cursor} (h : c.Lays n [] c₁)
    (h' : LaysBranch n c₁ b c') : LaysBranch n c b c' := by
  obtain ⟨first, rest, rfl, hrow⟩ := h'
  exact ⟨first, rest, rfl, h.behind hrow⟩

theorem statements_lays {separator : Cursor → Option (Token → Parser Unit)}
    {stop : Cursor → Bool} (hi : inner.Spanned n) (hc : c.Placed n) :
    (statements inner separator stop).Ensures c (LaysBranch n c) := by
  refine Ensures.bind ((separated_lays (f := fun s => [.statement s]) (fun c hc =>
    (statement_yields hi hc).mono fun _ _ h => h.lays hc) hc).mono fun as c' h =>
      Ensures.pure ⟨as.1, as.2, rfl, ?_⟩)
  rwa [List.map_eq_flatMap]

theorem functionBody_lays (hi : inner.Spanned n) (hc : c.Placed n) :
    (functionBody inner).Ensures c fun b c' => c.Lays n (b.toList.map .branch) c' := by
  refine Ensures.bind ((skipSeparators.lays hc).mono fun _ c₁ h₁ => Ensures.look_bind ?_)
  have hclose {b : Option Branch} {c₂ : Cursor} (h₂ : c.Lays n (b.toList.map .branch) c₂) :
      (expect .closeBrace .bodyStatementEnd >>= fun _ => Pure.pure b).Ensures c₂ fun b c' =>
        c.Lays n (b.toList.map .branch) c' :=
    Ensures.bind (((expect .closeBrace .bodyStatementEnd).lays h₂.placed).mono fun _ c₃ h₃ =>
      Ensures.pure (h₂.before h₃))
  split
  · exact Ensures.bind (Ensures.pure (hclose (b := none) h₁))
  · exact Ensures.bind (Ensures.map ((statements_lays hi h₁.placed).mono fun b c₂ h₂ =>
      hclose (b := some b) (h₁.behind h₂.lays)))

theorem arm_lays (hi : inner.Spanned n) (hc : c.Placed n) :
    (arm inner).Ensures c fun b c' => c.Lays n [.branch b] c' :=
  Ensures.bind ((skipNewlines.lays hc).mono fun _ _ h₁ =>
    (statements_lays hi h₁.placed).mono fun _ _ h₂ => h₁.behind h₂.lays)

theorem firstArm_lays (hi : inner.Spanned n) (hc : c.Placed n) :
    (firstArm inner).Ensures c (LaysBranch n c) :=
  Ensures.bind ((skipNewlines.lays hc).mono fun _ _ h₁ =>
    (statements_lays hi h₁.placed).mono fun _ _ h₂ => .behind h₁ h₂)

theorem head_lays (hi : inner.Spanned n) (hc : c.Placed n) :
    (head inner).Ensures c fun e c' => c.Lays n [.expression e] c' := by
  refine Ensures.bind ((skipNewlines.lays hc).mono fun _ c₁ h₁ => Ensures.bind
    ((hi.lays h₁.placed).mono fun e c₂ h₂ => Ensures.bind ((Parser.lays _ h₂.placed).mono
      fun _ c₃ h₃ => Ensures.pure ?_)))
  exact (h₁.behind h₂).before h₃

end Grammar
end WqSource
