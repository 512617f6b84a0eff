import WqSource.Proofs.Alike.Rules
import WqSource.Proofs.Sound.Block
import WqSource.Proofs.Tree.Erase

/-!
# Two runs between brackets

Inside brackets two alike cursors are never at the seam, so line feeds count the same for both.
Every parser of items and statements gives results that differ in their places only, and closes
the bracket that it was begun behind.

## Main definitions

* `Grammar.Inner.Alike`: what is asked of the parsers of expressions.

## Main statements

* `items_same`, `functionBody_same`, `arm_same`, `firstArm_same`, `head_same`.
-/

namespace WqSource
open Grammar WqSource.Parser

variable {α β : Type} {m : Comparison} {d : Nat} {c c' : Cursor}

namespace Cursor.Alike

/-- Inside brackets the current tokens are of the same kind, and the same is ahead. -/
theorem level_of_pos (h : c.Alike m d c') (hd : 0 < d) : c.Level m c' :=
  h.toMatches.level_of_pos (h.here ▸ hd)

/-- In front of an operator, separator or bracket the same is ahead. -/
theorem level_of_looksAt {p : Punct} (h : c.Alike m d c') (hp : c.looksAt p = true) :
    c.Level m c' := by
  rw [looksAt_iff] at hp
  exact h.level (by rw [hp]; rfl)

end Cursor.Alike

/-- Two runs of the parsers of expressions inside another give the same apart from places. -/
structure Grammar.Inner.Alike (m : Comparison) (inner : Inner) : Prop where
  expression : ∀ {d : Nat} {c c' : Cursor}, c.Alike m d c' →
    Same m Expr.erase d (inner.expression.run c) (inner.expression.run c')
  exponent : ∀ {d : Nat} {c c' : Cursor}, c.Alike m d c' →
    Same m Expr.erase d (inner.exponent.run c) (inner.exponent.run c')

/-! ## Branches apart from places -/

/-- A branch of statements apart from places. -/
theorem Branch.erase_ofStatements (first : Statement) (rest : List Statement) :
    (Branch.ofStatements first rest).erase =
      .mk default ((first :: rest).map Statement.erase) :=
  Branch.erase_eq _

/-- Branches that differ in places have the same statements apart from these. -/
theorem Branch.statements_of_erase {b b' : Branch} (h : b.erase = b'.erase) :
    b.statements.map Statement.erase = b'.statements.map Statement.erase := by
  rw [Branch.erase_eq, Branch.erase_eq] at h
  exact (Branch.mk.inj h).2

/-- Branches that differ in places are divided in the same way. -/
theorem Branch.splitLast?_of_erase {b b' : Branch} (h : b.erase = b'.erase) :
    b.splitLast?.map (Prod.map Branch.erase Branch.erase) =
      b'.splitLast?.map (Prod.map Branch.erase Branch.erase) := by
  have hs := Branch.statements_of_erase h
  unfold Branch.splitLast?
  generalize b.statements = ss at hs ⊢
  generalize b'.statements = ss' at hs ⊢
  match ss, ss', hs with
  | [], [], _ => rfl
  | [_], [_], _ => rfl
  | [], _ :: _, hs | _ :: _, [], hs | [_], _ :: _ :: _, hs | _ :: _ :: _, [_], hs => simp at hs
  | s :: t :: rest, s' :: t' :: rest', hs =>
    rw [List.map_cons, List.map_cons (l := t' :: rest')] at hs
    obtain ⟨hfirst, hrest⟩ := List.cons.inj hs
    have hlast : ((t :: rest).getLast (by simp)).erase = ((t' :: rest').getLast (by simp)).erase := by
      rw [← List.getLast_map (f := Statement.erase) (by simp),
        ← List.getLast_map (f := Statement.erase) (by simp)]
      simp only [hrest]
    have hinit : (t :: rest).dropLast.map Statement.erase =
        (t' :: rest').dropLast.map Statement.erase := by
      rw [List.map_dropLast, List.map_dropLast, hrest]
    simp only [Option.map_some, Prod.map_apply, Branch.erase_ofStatements, List.map_cons,
      List.map_nil, hfirst, hlast, hinit]

namespace Grammar
variable {inner : Inner}

/-! ## Separators -/

theorem skipNewlines_same (hd : 0 < d) (h : c.Alike m d c') :
    Same m id d (skipNewlines.run c) (skipNewlines.run c') := by
  refine .skipWhile h fun c c' h => ?_
  have hlevel := h.level_of_pos hd
  refine ⟨by rw [Cursor.atNewline, Cursor.atNewline, hlevel.kind], fun hn => ⟨hlevel, ?_⟩⟩
  have hn : c.current.kind = .newline := by simpa [Cursor.atNewline] using hn
  rw [hn]
  rfl

theorem depthAfter_of_isSeparator {k : Token.Kind} (h : k.isSeparator = true) :
    k.depthAfter d = d := by
  unfold Token.Kind.isSeparator at h
  split at h
  · rfl
  · rfl
  · cases h

theorem skipSeparators_same (hd : 0 < d) (h : c.Alike m d c') :
    Same m id d (skipSeparators.run c) (skipSeparators.run c') := by
  refine .skipWhile h fun c c' h => ?_
  have hlevel := h.level_of_pos hd
  exact ⟨by rw [Cursor.atSeparator, Cursor.atSeparator, hlevel.kind],
    fun hs => ⟨hlevel, depthAfter_of_isSeparator hs⟩⟩

theorem restOfSeparator_same {t t' : Token} (hd : 0 < d) (ht : t.kind = t'.kind)
    (h : c.Alike m d c') :
    Same m id d ((restOfSeparator t).run c) ((restOfSeparator t').run c') := by
  unfold restOfSeparator
  rw [← ht]
  split
  · refine .look_bind (h.looksAt .semicolon) ?_
    split
    · next hsemi =>
      refine .discard_take_bind h.toMatches (h.level_of_looksAt hsemi) fun c₁ c₁' h₁ => ?_
      rw [Cursor.looksAt_iff.1 hsemi, h.here] at h₁
      exact skipNewlines_same hd h₁
    · exact .pure rfl h
  · exact skipNewlines_same hd h

theorem separator_continues (hd : 0 < d) (h : c.Alike m d c') :
    Continues m id d c c' (separator c) (separator c') := by
  have hlevel := h.level_of_pos hd
  have hsame : c.atSeparator = c'.atSeparator := by
    rw [Cursor.atSeparator, Cursor.atSeparator, hlevel.kind]
  unfold separator
  rw [← hsame]
  split
  · next hs =>
    refine .goOn hlevel fun c₁ c₁' h₁ => ?_
    rw [depthAfter_of_isSeparator hs, h.here] at h₁
    exact restOfSeparator_same hd hlevel.kind h₁
  · exact .stop

/-! ## Items -/

/-- A closing bracket behind what both runs have read alike. -/
theorem expect_pure_same {close : Punct} {expected : Expectation} {f : α → β} {a a' : α}
    (hclose : close.depthAfter (d + 1) = d) (ha : f a = f a') (h : c.Alike m (d + 1) c') :
    Same m f d ((do expect close expected; return a : Parser α).run c)
      ((do expect close expected; return a' : Parser α).run c') := by
  have hexpect := Same.expect (f := id) close expected h
  rw [hclose] at hexpect
  exact .bind hexpect fun _ _ _ _ _ h => .pure ha h

/-- Items up to a closing bracket differ in their places only. -/
theorem items_same {close : Punct} {item : Parser α} {f : α → β}
    (hclose : close.depthAfter (d + 1) = d)
    (hitem : ∀ c c', c.Alike m (d + 1) c' → Same m f (d + 1) (item.run c) (item.run c'))
    (h : c.Alike m (d + 1) c') :
    Same m (List.map f) d ((items close item).run c) ((items close item).run c') := by
  have hd : 0 < d + 1 := by omega
  refine .bind (skipNewlines_same hd h) fun _ _ c c' _ h => .look_bind (h.looksAt close) ?_
  split
  · exact .bind (.pure rfl h) fun as as' c c' has h => expect_pure_same hclose has h
  · exact .bind (.separated h hitem (fun _ _ => separator_continues hd) fun _ _ h => h.looksAt close)
      fun _ _ _ _ has h => .bind (f := List.map f) (.pure has h)
        fun _ _ _ _ has h => expect_pure_same hclose has h

/-! ## Statements -/

/-- What ends its line is no line for the host. -/
theorem run_statement_of_endsLine (hk : c.current.kind.endsLine = true) :
    (statement inner).run c = (do return .expression (← inner.expression) : Parser _).run c := by
  rw [statement, run_bind, run_look]
  dsimp only
  split
  · next payload hmagic =>
    rw [hmagic] at hk
    cases hk
  · rfl

theorem statement_same (hi : inner.Alike m) (h : c.Alike m d c') :
    Same m Statement.erase d ((statement inner).run c) ((statement inner).run c') := by
  have hexpression : Same m Statement.erase d
      ((do return .expression (← inner.expression) : Parser Statement).run c)
      ((do return .expression (← inner.expression) : Parser Statement).run c') :=
    .bind (hi.expression h) fun e e' c c' he h => .pure (by simp [Statement.erase, he]) h
  rcases h.kind with hk | hseam
  · refine .look_bind hk ?_
    split
    · next payload hmagic =>
      refine .take_bind h.toMatches (h.level (by rw [hmagic]; rfl)) fun c₁ c₁' h₁ => ?_
      rw [hmagic, h.here] at h₁
      exact .pure rfl h₁
    · exact hexpression
  · rwa [run_statement_of_endsLine hseam.endsLine,
      run_statement_of_endsLine (c := c') (by rw [hseam.newline]; rfl)]

theorem statements_same {sep : Cursor → Option (Token → Parser Unit)} {stop : Cursor → Bool}
    (hi : inner.Alike m) (h : c.Alike m d c')
    (hsep : ∀ c c', c.Alike m d c' → Continues m id d c c' (sep c) (sep c'))
    (hstop : ∀ c c', c.Alike m d c' → stop c = stop c') :
    Same m Branch.erase d ((statements inner sep stop).run c)
      ((statements inner sep stop).run c') :=
  .bind (.separated h (fun _ _ => statement_same hi) hsep hstop) fun _ _ _ _ has h =>
    .pure (by rw [Branch.erase_ofStatements, Branch.erase_ofStatements, has]) h

theorem functionBody_same (hi : inner.Alike m) (h : c.Alike m (d + 1) c') :
    Same m (Option.map Branch.erase) d ((functionBody inner).run c)
      ((functionBody inner).run c') := by
  have hd : 0 < d + 1 := by omega
  refine .bind (skipSeparators_same hd h) fun _ _ c c' _ h =>
    .look_bind (h.looksAt .closeBrace) ?_
  split
  · exact .bind (.pure rfl h) fun _ _ _ _ ha h => expect_pure_same rfl ha h
  · refine .bind (.map (statements_same hi h (fun c c' h => ?_) fun _ _ h => h.looksAt .closeBrace)
      (g := Option.map Branch.erase) fun b b' hb => by simp [hb])
      fun _ _ _ _ ha h => expect_pure_same rfl ha h
    have hlevel := h.level_of_pos hd
    rw [Cursor.atSeparator, Cursor.atSeparator, ← hlevel.kind]
    split
    · next hs =>
      refine .goOn hlevel fun c₁ c₁' h₁ => ?_
      rw [depthAfter_of_isSeparator hs, h.here] at h₁
      exact skipSeparators_same hd h₁
    · exact .stop

theorem arm_same (hi : inner.Alike m) (hd : 0 < d) (h : c.Alike m d c') :
    Same m Branch.erase d ((arm inner).run c) ((arm inner).run c') :=
  .bind (skipNewlines_same hd h) fun _ _ _ _ _ h =>
    statements_same hi h (fun _ _ => separator_continues hd) fun _ _ h => h.looksAt .closeBracket

/-- Line feeds between statements. -/
theorem atNewline_continues {k k' : Token → Parser α} {f : α → β} (hd : 0 < d)
    (h : c.Alike m d c')
    (hk : ∀ c₁ c₁', c₁.Alike m d c₁' →
      Same m f d ((k c.current).run c₁) ((k' c'.current).run c₁')) :
    Continues m f d c c' (if c.atNewline then some k else none)
      (if c'.atNewline then some k' else none) := by
  have hlevel := h.level_of_pos hd
  rw [Cursor.atNewline, Cursor.atNewline, ← hlevel.kind]
  split
  · next hn =>
    refine .goOn hlevel fun c₁ c₁' h₁ => hk c₁ c₁' ?_
    rw [eq_of_beq hn, h.here] at h₁
    exact h₁
  · exact .stop

theorem firstArm_same (hi : inner.Alike m) (hd : 0 < d) (h : c.Alike m d c') :
    Same m Branch.erase d ((firstArm inner).run c) ((firstArm inner).run c') :=
  .bind (skipNewlines_same hd h) fun _ _ _ _ _ h =>
    statements_same hi h (fun _ _ h => atNewline_continues hd h fun _ _ h₁ => .pure rfl h₁)
      fun c c' h => by rw [h.looksAt, h.looksAt]

theorem head_same (hi : inner.Alike m) (hd : 0 < d) (h : c.Alike m d c') :
    Same m Expr.erase d ((head inner).run c) ((head inner).run c') := by
  refine .bind (skipNewlines_same hd h) fun _ _ c c' _ h =>
    .bind (hi.expression h) fun e e' c c' he h =>
      .bind (f := (id : Unit → Unit)) (.choose h.toMatches ?_) fun _ _ c c' _ h => .pure he h
  have hlevel := h.level_of_pos hd
  have hsame : c.atNewline = c'.atNewline := by
    rw [Cursor.atNewline, Cursor.atNewline, hlevel.kind]
  rw [← hsame, ← h.looksAt]
  split
  · next hn =>
    refine .goOn hlevel fun c₁ c₁' h₁ => .pure rfl ?_
    rw [show c.current.kind = .newline from eq_of_beq hn, h.here] at h₁
    exact h₁
  · split
    · next hsemi =>
      refine .goOn hlevel fun c₁ c₁' h₁ => skipNewlines_same hd ?_
      rw [Cursor.looksAt_iff.1 hsemi, h.here] at h₁
      exact h₁
    · exact .stop

end Grammar
end WqSource
