import WqSource.Proofs.Alone.Expression
import WqSource.Proofs.Spans.Block

/-!
# Where nodes come from

Every node of a tree was read between two cursors: one that looks at its first token, and one
behind its last token. No text is skipped on the way there, as a parser that has a result has only
taken tokens. An expression is moreover what those tokens are by themselves.

A branch takes its span from its statements; it was read where they were.

## Main definitions

* `Cursor.Covers`: a node was read between two cursors.
* `Node.From`: all nodes inside a node were read behind a cursor.
* `Cursor.Finds`, `Cursor.Stands`: nodes, and an expression, between two cursors.
* `Grammar.Inner.Traced`: what is asked of the parsers of expressions.

## Main statements

* `separated_finds`: sequences with separators.
* `items_finds`, `functionBody_finds`, `arm_finds`, `firstArm_finds`, `head_finds`.
-/

namespace WqSource
open Grammar WqSource.Parser

namespace Cursor
variable {n : Nat} {b b' c c₁ c₂ c' : Cursor} {x : Node} {xs ys : List Node} {e : Expr}

/-- The node was read between the two cursors. -/
structure Covers (b : Cursor) (x : Node) (b' : Cursor) : Prop where
  span : x.span = ⟨b.current.span.start, b'.lastEnd⟩
  advances : ∃ k, 0 < k ∧ b.Advances k b'
  alone : ∀ e, x = .expression e → b.Alone e b'

/-- The node was read somewhere behind the cursor. -/
def Origin (c : Cursor) (x : Node) : Prop :=
  ∃ i b b', c.Advances i b ∧ b.Covers x b'

theorem Origin.behind {i : Nat} (h : c.Advances i c₁) (hx : c₁.Origin x) : c.Origin x := by
  obtain ⟨j, b, b', hadvances, hcovers⟩ := hx
  exact ⟨i + j, b, b', h.trans hadvances, hcovers⟩

end Cursor

/-- The node and all nodes inside it were read behind the cursor. -/
def Node.From (c : Cursor) (x : Node) : Prop :=
  ∀ y : Node, y.Within x → (∃ b, y = .branch b) ∨ c.Origin y

namespace Node
variable {c c₁ : Cursor} {x : Node}

theorem from_iff :
    x.From c ↔ ((∃ b, x = .branch b) ∨ c.Origin x) ∧ ∀ p ∈ x.parts, p.From c :=
  forall_within_iff

theorem From.behind {i : Nat} (h : c.Advances i c₁) (hx : x.From c₁) : x.From c :=
  fun y hy => (hx y hy).imp_right (.behind h)

end Node

namespace Cursor
variable {n : Nat} {b b' c c₁ c₂ c' : Cursor} {x : Node} {xs ys : List Node} {e : Expr}

/-- The nodes were read behind the first cursor, and tokens are all there is between the two. -/
structure Finds (c : Cursor) (xs : List Node) (c' : Cursor) : Prop where
  nodes : ∀ x ∈ xs, x.From c
  advances : ∃ k, c.Advances k c'

namespace Finds

theorem refl : c.Finds [] c := ⟨by simp, 0, .refl c⟩

theorem trans (h : c.Finds xs c₁) (h' : c₁.Finds ys c₂) : c.Finds (xs ++ ys) c₂ := by
  obtain ⟨i, hi⟩ := h.advances
  obtain ⟨j, hj⟩ := h'.advances
  refine ⟨fun x hx => ?_, i + j, hi.trans hj⟩
  rcases List.mem_append.1 hx with hx | hx
  · exact h.nodes x hx
  · exact (h'.nodes x hx).behind hi

theorem behind (h : c.Finds [] c₁) (h' : c₁.Finds xs c₂) : c.Finds xs c₂ := h.trans h'

theorem before (h : c.Finds xs c₁) (h' : c₁.Finds [] c₂) : c.Finds xs c₂ := by
  simpa using h.trans h'

theorem take (hend : c.atEnd = false) (ht : c.take = (.ok c.current, c₁)) : c.Finds [] c₁ :=
  ⟨by simp, 1, .single hend ht⟩

theorem placed (hc : c.Placed n) (h : c.Finds xs c') : c'.Placed n := by
  obtain ⟨k, hadvances⟩ := h.advances
  exact (hc.reaches hadvances.reaches).placed

/-- A node is found with its parts. -/
theorem single (h : c.Covers x c') (hparts : ∀ p ∈ x.parts, p.From c) : c.Finds [x] c' := by
  obtain ⟨k, -, hadvances⟩ := h.advances
  refine ⟨fun y hy => ?_, k, hadvances⟩
  rw [List.mem_singleton.1 hy]
  exact Node.from_iff.2 ⟨.inr ⟨0, c, c', .refl c, h⟩, hparts⟩

/-- A branch is found with its statements. -/
theorem branch {first : Statement} {rest : List Statement}
    (h : c.Finds ((first :: rest).map .statement) c') :
    c.Finds [.branch (.ofStatements first rest)] c' := by
  refine ⟨fun y hy => ?_, h.advances⟩
  rw [List.mem_singleton.1 hy]
  exact Node.from_iff.2 ⟨.inl ⟨_, rfl⟩, h.nodes⟩

end Finds

/-- A token that is taken makes a node. -/
theorem Placed.covers_take (hc : c.Placed n) (hend : c.atEnd = false)
    (ht : c.take = (.ok c.current, c')) (hspan : x.span = c.current.span)
    (hne : ∀ e, x ≠ .expression e) : c.Covers x c' :=
  ⟨by rw [hspan, (hc.take ht).2], ⟨1, Nat.one_pos, .single hend ht⟩, fun e he => absurd he (hne e)⟩

/-- The expression was read between the two cursors, and its parts were read there, too. -/
structure Stands (c : Cursor) (e : Expr) (c' : Cursor) : Prop where
  covers : c.Covers (.expression e) c'
  parts : ∀ p ∈ e.parts, p.From c

theorem Stands.finds (h : c.Stands e c') : c.Finds [.expression e] c' := .single h.covers h.parts

/-- An expression that is all there is between the two cursors, and stands alone there. -/
theorem Stands.of_yields (h : c.Yields n (.expression e) c') (ha : c.Alone e c')
    (hparts : ∀ p ∈ e.parts, p.From c) : c.Stands e c' := by
  obtain ⟨k, hk, hadvances, -⟩ := id ha
  refine ⟨⟨?_, ⟨k, hk, hadvances⟩, fun e' he => ?_⟩, hparts⟩
  · rw [← h.start, ← h.stop]
  · cases he
    exact ha

end Cursor

variable {α : Type} {n g : Nat} {c c₁ : Cursor} {inner : Inner}

/-- Where a parser takes only tokens, nothing else is passed. -/
theorem Parser.Copies.finds {p p' : Parser α} (h : Copies n g p p' c) :
    p.Ensures c fun _ c' => c.Finds [] c' :=
  Ensures.mono h.advances fun _ _ hadvances => ⟨by simp, hadvances⟩

/-- What goes on behind a token takes only tokens, too. -/
theorem Parser.Together.finds {o o' : Option (Token → Parser α)} {k : Token → Parser α}
    (h : Together n g c o o') (hk : o = some k) (ht : c.take = (.ok c.current, c₁)) :
    c.Finds [] c₁ ∧ (k c.current).Ensures c₁ fun _ c' => c₁.Finds [] c' := by
  cases h with
  | stop => cases hk
  | goOn hend hcopies =>
    cases hk
    exact ⟨.take hend ht, (hcopies c₁ ht).finds⟩

namespace Grammar

/-- Every expression is what was read for it, and stands alone. -/
structure Inner.Traced (n : Nat) (inner : Inner) : Prop where
  copied : inner.Copied widest
  spanned : inner.Spanned n
  expression : ∀ c : Cursor, c.Placed n → inner.expression.Ensures c c.Stands
  exponent : ∀ c : Cursor, c.Placed n → inner.exponent.Ensures c c.Stands

theorem Inner.Traced.finds (hi : inner.Traced n) (hc : c.Placed n) :
    inner.expression.Ensures c fun e c' => c.Finds [.expression e] c' :=
  (hi.expression c hc).mono fun _ _ h => h.finds

/-! ## Sequences -/

/-- If the nodes of each item are found, so are those of a sequence. -/
theorem separated_finds {f : α → List Node} {item : Parser α}
    {separator : Cursor → Option (Token → Parser Unit)} {stop : Cursor → Bool}
    (hitem : ∀ c : Cursor, c.Placed n → item.Ensures c fun a c' => c.Finds (f a) c')
    (hseparator : ∀ c, Together 0 0 c (separator c) (separator c)) (hc : c.Placed n) :
    (separated item separator stop).Ensures c fun as c' =>
      c.Finds ((as.1 :: as.2).flatMap f) c' := by
  refine Ensures.bind ((hitem c hc).mono fun first c₁ h₁ => Ensures.bind ((Ensures.repeatTaking
    (I := fun rest c' => c.Finds ((first :: rest).flatMap f) c') (by simpa using h₁) ?_).mono
      fun rest c' h => Ensures.pure h.1))
  intro rest c₂ goOn c₃ hI hn ht
  obtain ⟨goOn', hgoOn, rfl⟩ := Option.map_eq_some_iff.1 hn
  obtain ⟨h₃, hskip⟩ := (hseparator c₂).finds hgoOn ht
  refine Ensures.bind (hskip.mono fun _ c₄ h₄ => Ensures.look_bind ?_)
  have h₄ := hI.before (h₃.behind h₄)
  split
  · exact Ensures.pure h₄
  · refine Ensures.bind ((hitem c₄ (h₄.placed hc)).mono fun a c₅ h₅ => Ensures.pure ?_)
    simpa using h₄.trans h₅

/-- Items are found in front of their closing bracket. -/
theorem items_finds {f : α → List Node} {close : Punct} {item : Parser α}
    (hitem : ∀ c : Cursor, c.Placed n → item.Ensures c fun a c' => c.Finds (f a) c')
    (hc : c.Placed n) :
    (items close item).Ensures c fun as c' => c.Finds (as.flatMap f) c' := by
  refine Ensures.bind ((skipNewlines_copies (n := 0)).finds.mono fun _ c₁ h₁ =>
    Ensures.look_bind ?_)
  have hclose {as : List α} {c₂ : Cursor} (h₂ : c.Finds (as.flatMap f) c₂) :
      (expect close (.itemEnd close) >>= fun _ => Pure.pure as).Ensures c₂ fun as c' =>
        c.Finds (as.flatMap f) c' :=
    Ensures.bind ((Copies.expect (n := 0)).finds.mono fun _ c₃ h₃ => Ensures.pure (h₂.before h₃))
  split
  · exact Ensures.bind (Ensures.pure (hclose h₁))
  · refine Ensures.bind ((separated_finds hitem
      (fun _ => together_atSeparator fun _ => restOfSeparator_copies) (h₁.placed hc)).mono ?_)
    rintro ⟨first, rest⟩ c₂ h₂
    exact Ensures.bind (Ensures.pure (hclose (h₁.behind h₂)))

/-! ## Statements -/

theorem statement_finds (hexpression : ∀ c : Cursor, c.Placed n →
    inner.expression.Ensures c c.Stands) (hc : c.Placed n) :
    (statement inner).Ensures c fun s c' => c.Finds [.statement s] c' := by
  refine Ensures.look_bind ?_
  split
  · next payload hk =>
    refine Ensures.bind (Ensures.take fun c₁ ht => Ensures.pure ?_)
    exact .single (hc.covers_take (by simp [Cursor.atEnd, hk]) ht rfl (by simp))
      fun _ hp => absurd hp List.not_mem_nil
  · refine Ensures.bind ((hexpression c hc).mono fun e c' h => Ensures.pure ?_)
    have hcovers : c.Covers (.statement (.expression e)) c' :=
      ⟨h.covers.span, h.covers.advances, by simp⟩
    exact .single hcovers h.finds.nodes

/-- Statements were found of which a branch was made. -/
def FindsBranch (c : Cursor) (b : Branch) (c' : Cursor) : Prop :=
  ∃ first rest, b = .ofStatements first rest ∧ c.Finds ((first :: rest).map .statement) c'

theorem FindsBranch.finds {b : Branch} {c' : Cursor} (h : FindsBranch c b c') :
    c.Finds [.branch b] c' := by
  obtain ⟨first, rest, rfl, hall⟩ := h
  exact hall.branch

theorem FindsBranch.behind {b : Branch} {c' : Cursor} (h : c.Finds [] c₁)
    (h' : FindsBranch c₁ b c') : FindsBranch c b c' := by
  obtain ⟨first, rest, rfl, hall⟩ := h'
  exact ⟨first, rest, rfl, h.behind hall⟩

theorem statements_finds {separator : Cursor → Option (Token → Parser Unit)}
    {stop : Cursor → Bool} (hi : inner.Traced n)
    (hseparator : ∀ c, Together 0 0 c (separator c) (separator c)) (hc : c.Placed n) :
    (statements inner separator stop).Ensures c (FindsBranch c) := by
  refine Ensures.bind ((separated_finds (f := fun s => [.statement s])
    (fun c hc => statement_finds hi.expression hc) hseparator hc).mono fun as c' h =>
      Ensures.pure ⟨as.1, as.2, rfl, ?_⟩)
  rwa [List.map_eq_flatMap]

theorem functionBody_finds (hi : inner.Traced n) (hc : c.Placed n) :
    (functionBody inner).Ensures c fun b c' => c.Finds (b.toList.map .branch) c' := by
  refine Ensures.bind ((skipSeparators_copies (n := 0)).finds.mono fun _ c₁ h₁ =>
    Ensures.look_bind ?_)
  have hclose {b : Option Branch} {c₂ : Cursor} (h₂ : c.Finds (b.toList.map .branch) c₂) :
      (expect .closeBrace .bodyStatementEnd >>= fun _ => Pure.pure b).Ensures c₂ fun b c' =>
        c.Finds (b.toList.map .branch) c' :=
    Ensures.bind ((Copies.expect (n := 0)).finds.mono fun _ c₃ h₃ => Ensures.pure (h₂.before h₃))
  split
  · exact Ensures.bind (Ensures.pure (hclose (b := none) h₁))
  · exact Ensures.bind (Ensures.map ((statements_finds hi
      (fun _ => together_atSeparator fun _ => skipSeparators_copies) (h₁.placed hc)).mono
        fun b c₂ h₂ => hclose (b := some b) (h₁.behind h₂.finds)))

theorem arm_finds (hi : inner.Traced n) (hc : c.Placed n) :
    (arm inner).Ensures c fun b c' => c.Finds [.branch b] c' :=
  Ensures.bind ((skipNewlines_copies (n := 0)).finds.mono fun _ _ h₁ =>
    (statements_finds hi (fun _ => together_atSeparator fun _ => restOfSeparator_copies)
      (h₁.placed hc)).mono fun _ _ h₂ => h₁.behind h₂.finds)

theorem firstArm_finds (hi : inner.Traced n) (hc : c.Placed n) :
    (firstArm inner).Ensures c (FindsBranch c) :=
  Ensures.bind ((skipNewlines_copies (n := 0)).finds.mono fun _ _ h₁ =>
    (statements_finds hi (fun _ => together_atNewline fun _ => .pure) (h₁.placed hc)).mono
      fun _ _ h₂ => .behind h₁ h₂)

theorem head_finds (hi : inner.Traced n) (hc : c.Placed n) :
    (head inner).Ensures c fun e c' => c.Finds [.expression e] c' := by
  have hseparator (c : Cursor) : Together 0 0 c
      (if c.atNewline then some fun _ => Pure.pure ()
        else if c.looksAt .semicolon then some fun _ => skipNewlines else none)
      (if c.atNewline then some fun _ => Pure.pure ()
        else if c.looksAt .semicolon then some fun _ => skipNewlines else none) := by
    split
    · next hn => exact .goOn (Cursor.atEnd_of_atNewline hn) fun _ _ => .pure
    · exact Copies.together_looksAt fun _ _ => skipNewlines_copies
  refine Ensures.bind ((skipNewlines_copies (n := 0)).finds.mono fun _ c₁ h₁ => Ensures.bind
    ((hi.finds (h₁.placed hc)).mono fun e c₂ h₂ => Ensures.bind (Ensures.choose
      fun goOn c₃ hn ht => ?_)))
  obtain ⟨h₃, hskip⟩ := (hseparator c₂).finds hn ht
  exact hskip.mono fun _ c₄ h₄ => Ensures.pure ((h₁.behind h₂).before (h₃.behind h₄))

end Grammar
end WqSource
