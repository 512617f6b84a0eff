import WqSource.Proofs.Alike.Primary
import WqSource.Proofs.Sound.Operator
import WqSource.Grammar.Expression

/-!
# Two runs of expressions

The tiers of the grammar go on by the kind of the current token, and at brackets by what these
touch; both are the same for alike cursors. So two runs of any level from alike cursors give
trees that differ in their places only.

## Main statements

* `level_alike`: every level.
-/

namespace WqSource.Grammar
open WqSource.Parser

variable {m : Comparison} {d : Nat} {c c' : Cursor} {inner : Inner} {t t' : Token}

/-! ## Chains -/

theorem index_same (hi : inner.Alike m) (h : c.Alike m (d + 1) c') :
    Same m Suffix.erase d ((index inner t).run c) ((index inner t').run c') :=
  .bind (items_same rfl (fun _ _ => hi.expression) h) fun _ _ _ _ has h =>
    .spanFrom_bind fun _ _ => .pure (by simp [Suffix.erase, has]) h

theorem chained_same {base base' : Expr} {suffixes suffixes' : List Suffix}
    (hbase : base.erase = base'.erase)
    (hsuffixes : suffixes.map Suffix.erase = suffixes'.map Suffix.erase) (h : c.Alike m d c') :
    Same m Expr.erase d ((chained base suffixes).run c) ((chained base' suffixes').run c') := by
  unfold chained
  match suffixes, suffixes', hsuffixes with
  | [], [], _ => exact .pure hbase h
  | _ :: _, _ :: _, hsuffixes =>
    exact .spanFrom_bind fun _ _ => .pure (by
      rw [Expr.erase, Expr.erase, Suffix.eraseList_eq, Suffix.eraseList_eq, hbase, hsuffixes]) h

/-- Index brackets behind a base. -/
theorem atAdjacentBracket_continues {suffixes suffixes' : List Suffix}
    {o o' : Option (Token → Parser (List Suffix))}
    (hi : inner.Alike m) (hsuffixes : suffixes.map Suffix.erase = suffixes'.map Suffix.erase)
    (h : c.Alike m d c') (ho : Continues m (List.map Suffix.erase) d c c' o o') :
    Continues m (List.map Suffix.erase) d c c'
      (if c.atAdjacentBracket then some fun t => return suffixes ++ [← index inner t] else o)
      (if c'.atAdjacentBracket then some fun t => return suffixes' ++ [← index inner t] else o') := by
  rw [← h.bracket]
  split
  · next hbracket =>
    have hopen := (Cursor.atAdjacentBracket_iff.1 hbracket).1
    refine .goOn (h.level (by rw [hopen]; rfl)) fun c₁ c₁' h₁ => ?_
    rw [hopen, h.here] at h₁
    exact .bind (index_same hi h₁) fun _ _ _ _ hs h => .pure (by simp [hsuffixes, hs]) h
  · exact ho

theorem indexed_same {base base' : Expr} (hi : inner.Alike m) (hbase : base.erase = base'.erase)
    (h : c.Alike m d c') :
    Same m Expr.erase d ((indexed inner base).run c) ((indexed inner base').run c') :=
  .bind (.repeatTaking rfl h fun _ _ _ _ hs h => atAdjacentBracket_continues hi hs h .stop)
    fun _ _ _ _ hs h => chained_same hbase hs h

theorem raised_same {base base' : Expr} (hi : inner.Alike m) (hbase : base.erase = base'.erase)
    (h : c.Alike m d c') :
    Same m Expr.erase d ((raised inner base).run c) ((raised inner base').run c') := by
  refine .look_bind (h.looksAt .caret) ?_
  split
  · next hcaret =>
    refine .discard_take_bind h.toMatches (h.level_of_looksAt hcaret) fun c₁ c₁' h₁ => ?_
    rw [Cursor.looksAt_iff.1 hcaret, h.here] at h₁
    exact .bind (hi.exponent h₁) fun _ _ _ _ he h => .pure (by simp [Expr.erase, hbase, he]) h
  · exact .pure hbase h

theorem counted_same {start start' : Position} {ops : List UnaryOp} {e e' : Expr}
    (he : e.erase = e'.erase) (h : c.Alike m d c') :
    Same m Expr.erase d ((counted start ops e).run c) ((counted start' ops e').run c') := by
  unfold counted
  split
  · exact .pure he h
  · exact .spanFrom_bind fun _ _ => .pure (by simp [Expr.erase, he]) h

/-- What goes on behind the first token of an argument. -/
theorem argument?_same {kind : Token.Kind} {k : Token → Parser Expr} (hi : inner.Alike m)
    (hk : argument? inner kind = some k) (h : c.Alike m (kind.depthAfter d) c') :
    Same m Expr.erase d ((k t).run c) ((k t').run c') := by
  unfold argument? at hk
  split at hk
  · cases hk
    refine .bind (f := id) (.repeatTaking rfl h fun ops ops' c c' hops h => ?_)
      fun ops ops' c c' hops h => .bind (primary_same hi h) fun _ _ _ _ he h =>
        .bind (indexed_same hi he h) fun _ _ _ _ he h => .bind (raised_same hi he h)
          fun _ _ _ _ he h => ?_
    · obtain rfl : ops = ops' := hops
      exact continues_looksAt h fun _ _ _ h₁ => .pure rfl h₁
    · obtain rfl : ops = ops' := hops
      exact counted_same he h
  · obtain ⟨k', hk', rfl⟩ := Option.map_eq_some_iff.1 hk
    exact .bind (primary?_same hi hk' h) fun _ _ _ _ he h =>
      .bind (indexed_same hi he h) fun _ _ _ _ he h => raised_same hi he h

/-- No argument begins with what ends a line. -/
theorem argument?_of_endsLine (inner : Inner) (k : Token.Kind) (hk : k.endsLine = true) :
    argument? inner k = none := by
  cases k <;> first | rfl | cases hk

theorem chain_same (hi : inner.Alike m) (h : c.Alike m d c') :
    Same m Expr.erase d ((chain inner).run c) ((chain inner).run c') := by
  refine .bind (primary_same hi h) fun base base' c c' hbase h =>
    .bind (.repeatTaking rfl h fun suffixes suffixes' c c' hs h =>
      atAdjacentBracket_continues hi hs h ?_) fun _ _ _ _ hs h => chained_same hbase hs h
  exact continues_map h (argument?_of_endsLine inner) fun k hk c₁ c₁' h₁ =>
    .bind (argument?_same hi hk h₁) fun _ _ _ _ he h => .pure (by simp [Suffix.erase, hs, he]) h

/-! ## Operators -/

theorem power_same (hi : inner.Alike m) (h : c.Alike m d c') :
    Same m Expr.erase d ((power inner).run c) ((power inner).run c') :=
  .bind (chain_same hi h) fun _ _ _ _ he h => raised_same hi he h

theorem depthAfter_of_unaryOp? {k : Token.Kind} {op : UnaryOp} (h : unaryOp? k = some op) :
    k.depthAfter d = d := by
  unfold unaryOp? at h
  split at h <;> first | rfl | cases h

theorem unary_same (hi : inner.Alike m) (h : c.Alike m d c') :
    Same m Expr.erase d ((unary inner).run c) ((unary inner).run c') := by
  change Same m Expr.erase d ((look _ >>= _).run c) ((look _ >>= _).run c')
  rw [run_bind, run_bind, run_look, run_look]
  refine .bind (f := id) (.repeatTaking rfl h fun ops ops' c c' hops h => ?_)
    fun ops ops' c c' hops h => .bind (power_same hi h) fun _ _ _ _ he h => ?_
  · obtain rfl : ops = ops' := hops
    refine continues_map h (fun k hk => ?_) fun op hop c₁ c₁' h₁ => .pure rfl ?_
    · cases k <;> first | rfl | cases hk
    · rwa [depthAfter_of_unaryOp? hop] at h₁
  · obtain rfl : ops = ops' := hops
    exact counted_same he h

theorem depthAfter_of_op? {tier : Tier} {k : Token.Kind} {op : BinaryOp} (h : tier.op? k = some op) :
    k.depthAfter d = d := by
  unfold Tier.op? at h
  split at h <;> first | rfl | cases h

theorem binary_same {tier : Tier} {operand : Parser Expr}
    (hoperand : ∀ {c c'}, c.Alike m d c' → Same m Expr.erase d (operand.run c) (operand.run c'))
    (h : c.Alike m d c') :
    Same m Expr.erase d ((binary tier operand).run c) ((binary tier operand).run c') := by
  refine .bind (hoperand h) fun first first' c c' hfirst h =>
    .repeatTaking hfirst h fun left left' c c' hleft h => ?_
  refine continues_map h (fun k hk => ?_) fun op hop c₁ c₁' h₁ => ?_
  · cases tier <;> cases k <;> first | rfl | cases hk
  · rw [depthAfter_of_op? hop] at h₁
    exact .bind (hoperand h₁) fun _ _ _ _ hright h => .pure (by simp [Expr.erase, hleft, hright]) h

theorem listed_same {p : Punct} {node : Span → List Expr → Expr} {operand : Parser Expr}
    (hp : p.depthAfter d = d)
    (hnode : ∀ s s' es es', es.map Expr.erase = es'.map Expr.erase →
      (node s es).erase = (node s' es').erase)
    (hoperand : ∀ {c c'}, c.Alike m d c' → Same m Expr.erase d (operand.run c) (operand.run c'))
    (h : c.Alike m d c') :
    Same m Expr.erase d ((listed p node operand).run c) ((listed p node operand).run c') := by
  refine .bind (.separated h (fun _ _ => hoperand) (fun c c' h => continues_looksAt h
    fun _ _ _ h₁ => .pure rfl (by rwa [hp] at h₁)) fun _ _ _ => rfl) ?_
  rintro ⟨first, rest⟩ ⟨first', rest'⟩ c c' has h
  dsimp only at has ⊢
  match rest, rest', has with
  | [], _ :: _, has | _ :: _, [], has => simp at has
  | [], [], has => exact .pure (List.cons.inj has).1 h
  | _ :: _, _ :: _, has => exact .spanFrom_bind fun _ _ => .pure (hnode _ _ _ _ has) h

theorem assignment_same (hi : inner.Alike m) (h : c.Alike m d c') :
    Same m Expr.erase d ((assignment inner).run c) ((assignment inner).run c') := by
  have hcomparison {c c' : Cursor} (h : c.Alike m d c') :
      Same m Expr.erase d ((comparison inner).run c) ((comparison inner).run c') :=
    binary_same (binary_same (binary_same (unary_same hi))) h
  have hjoin {c c' : Cursor} (h : c.Alike m d c') :
      Same m Expr.erase d ((join inner).run c) ((join inner).run c') :=
    listed_same rfl (fun _ _ _ _ h => by simp [Expr.erase, h]) hcomparison h
  refine .bind (listed_same rfl (fun _ _ _ _ h => by simp [Expr.erase, h]) hjoin h)
    fun target target' c c' htarget h => .look_bind (h.looksAt .colon) ?_
  split
  · next hcolon =>
    refine .discard_take_bind h.toMatches (h.level_of_looksAt hcolon) fun c₁ c₁' h₁ => ?_
    rw [Cursor.looksAt_iff.1 hcolon, h.here] at h₁
    exact .bind (hi.expression h₁) fun _ _ _ _ he h => .pure (by simp [Expr.erase, htarget, he]) h
  · exact .pure htarget h

/-- Two runs of any level give the same apart from places. -/
theorem level_alike (m : Comparison) (n : Nat) : (level n).Alike m := by
  induction n with
  | zero => exact ⟨fun h => .fail _ h.toMatches, fun h => .fail _ h.toMatches⟩
  | succ n ih => exact ⟨assignment_same ih, unary_same ih⟩

end WqSource.Grammar
