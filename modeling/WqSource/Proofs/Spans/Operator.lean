import WqSource.Grammar.Expression
import WqSource.Proofs.Spans.Primary

/-!
# Spans of operators

What stands around an operand begins or ends with it: an expression with operators between its
parts reaches from the first part through the last one, and one with something behind its base
through the last token of that.

## Main statements

* `level_spanned`: the parsers of every level.
-/

namespace WqSource.Grammar
open WqSource.Parser

variable {n : Nat} {inner : Inner} {c c₀ c₁ : Cursor} {base : Expr}

/-! ## Chains -/

theorem index_lays (hi : inner.Spanned n) (hc : c.Placed n)
    (ht : c.take = (.ok c.current, c₁)) (hend : c.atEnd = false) :
    (index inner c.current).Ensures c₁ fun s c' => c.Lays n [.suffix s] c' := by
  obtain ⟨hc₁, hlast⟩ := hc.take ht
  have hlt := hc.nonempty hend
  refine Ensures.bind ((items_lays (fun c hc => hi.lays hc) hc₁).mono fun es c₂ h₂ =>
    Ensures.look_bind (Ensures.pure ?_))
  obtain ⟨hrow, hplaced⟩ := h₂
  rw [hlast, ← List.map_eq_flatMap] at hrow
  refine ⟨.single (Node.nested_of_laid (Nat.lt_of_lt_of_le hlt hrow.le) ?_ (by simp)) hc.behind
    (Nat.le_refl _), hplaced⟩
  exact hrow.mono (Nat.le_of_lt hlt) (Nat.le_refl _)

/-- A first part, and the nodes that have been read behind it. -/
structure Begun (n : Nat) (c : Cursor) (first : Expr) (xs : List Node) (c' : Cursor) : Prop where
  start : first.span.start = c.current.span.start
  row : c.Lays n (.expression first :: xs) c'
  alone : xs = [] → c.Yields n (.expression first) c'

namespace Begun
variable {first : Expr} {xs : List Node} {x : Node}

theorem of_yields (hc : c.Placed n) (h : c.Yields n (.expression first) c₁) :
    Begun n c first [] c₁ :=
  ⟨h.start, h.lays hc, fun _ => h⟩

theorem snoc (h : Begun n c first xs c₀) (hx : c₀.Lays n [x] c₁) :
    Begun n c first (xs ++ [x]) c₁ :=
  ⟨h.start, by simpa using h.row.trans hx, by simp⟩

/-- What has been read is an expression from the first part through the last token. -/
theorem yields {e : Expr} (h : Begun n c first xs c₁)
    (hspan : e.span = ⟨first.span.start, c₁.lastEnd⟩)
    (hparts : e.parts = .expression first :: xs) : c.Yields n (.expression e) c₁ :=
  h.row.yields h.start hspan hparts

end Begun

theorem chained_yields {suffixes : List Suffix}
    (h : Begun n c₀ base (suffixes.map .suffix) c) :
    (chained base suffixes).Ensures c fun e c' => c₀.Yields n (.expression e) c' := by
  unfold chained
  split
  · next hempty =>
    cases List.isEmpty_iff.1 hempty
    exact Ensures.pure (h.alone rfl)
  · exact Ensures.look_bind (Ensures.pure (h.yields rfl rfl))

theorem indexed_yields (hi : inner.Spanned n) (hc₀ : c₀.Placed n)
    (h : c₀.Yields n (.expression base) c) :
    (indexed inner base).Ensures c fun e c' => c₀.Yields n (.expression e) c' := by
  refine Ensures.bind ((Ensures.repeatTaking (I := fun suffixes c' =>
    Begun n c₀ base (suffixes.map .suffix) c') (.of_yields hc₀ h) ?_).mono fun suffixes c' hs =>
      chained_yields hs.1)
  intro suffixes c₁ goOn c₂ hI hn ht
  split at hn
  · next hbracket =>
    cases hn
    have hend : c₁.atEnd = false := ne_atEnd_of_looksAt (Bool.and_eq_true_iff.1 hbracket).1
    exact Ensures.bind ((index_lays hi hI.row.placed ht hend).mono fun s c₃ h₃ =>
      Ensures.pure (by simpa using hI.snoc h₃))
  · cases hn

theorem raised_yields (hi : inner.Spanned n) (h : c₀.Yields n (.expression base) c) :
    (raised inner base).Ensures c fun e c' => c₀.Yields n (.expression e) c' := by
  refine Ensures.look_bind ?_
  split
  · refine Ensures.bind (Ensures.discard_take fun c₁ ht => ?_)
    have hc₁ := (h.placed.take ht).1
    exact Ensures.bind ((hi.exponent c₁ hc₁).mono fun exponent c₂ h₂ =>
      Ensures.pure (h.pair ht h₂ rfl rfl))
  · exact Ensures.pure h

theorem raised_indexed_yields (hi : inner.Spanned n) (hc₀ : c₀.Placed n)
    (h : c₀.Yields n (.expression base) c) :
    (do raised inner (← indexed inner base)).Ensures c fun e c' =>
      c₀.Yields n (.expression e) c' :=
  Ensures.bind ((indexed_yields hi hc₀ h).mono fun _ _ h₁ => raised_yields hi h₁)

/-- Operators in front of an operand begin where the first of them does. -/
theorem counted_yields {ops : List UnaryOp} {operand : Expr} {start : Position}
    (hstart : start = c₀.current.span.start) (hempty : ops = [] → c₁ = c₀)
    (hle : start.offset ≤ c₁.current.span.start.offset)
    (h : c₁.Yields n (.expression operand) c) :
    (counted start ops operand).Ensures c fun e c' => c₀.Yields n (.expression e) c' := by
  unfold counted
  split
  · next hops =>
    rw [hempty (List.isEmpty_iff.1 hops)] at h
    exact Ensures.pure h
  · have hlt := (Node.nested_iff.1 h.nested).1.nonempty
    have hle : start.offset ≤ operand.span.start.offset := by
      rw [show operand.span.start = c₁.current.span.start from h.start]
      exact hle
    have hstop : operand.span.stop = c.lastEnd := h.stop
    refine Ensures.look_bind (Ensures.pure (.of_laid hstart rfl ?_ ?_ h.placed))
    · change start.offset < c.lastEnd.offset
      rw [← hstop]
      exact Nat.lt_of_le_of_lt hle hlt
    · change Laid start.offset [.expression operand] c.lastEnd.offset
      rw [← hstop]
      exact .single h.nested hle (Nat.le_refl _)

/-- The token behind another one begins behind it. -/
theorem start_le_take (hc : c.Placed n) (ht : c.take = (.ok c.current, c₁)) :
    c.current.span.start.offset ≤ c₁.current.span.start.offset := by
  obtain ⟨hc₁, hlast⟩ := hc.take ht
  have hbehind := hc₁.behind
  rw [hlast] at hbehind
  exact Nat.le_trans hc.ordered hbehind

theorem argument?_yields {goOn : Token → Parser Expr} (hi : inner.Spanned n) (hc : c.Placed n)
    (ht : c.take = (.ok c.current, c₁)) (hs : argument? inner c.current.kind = some goOn) :
    (goOn c.current).Ensures c₁ fun e c' => c.Yields n (.expression e) c' := by
  unfold argument? at hs
  split at hs
  · next hk =>
    cases hs
    refine Ensures.bind ((Ensures.repeatTaking (I := fun ops c' => ops ≠ [] ∧ c'.Placed n ∧
      c.current.span.start.offset ≤ c'.current.span.start.offset)
        ⟨by simp, (hc.take ht).1, start_le_take hc ht⟩ ?_).mono fun ops c₂ hops => ?_)
    · rintro ops c₂ goOn c₃ ⟨-, hc₂, hle⟩ hn ht₂
      unfold atPunct at hn
      split at hn <;> cases hn
      exact Ensures.pure ⟨by simp, (hc₂.take ht₂).1,
        Nat.le_trans hle (start_le_take hc₂ ht₂)⟩
    · obtain ⟨⟨hne, hc₂, hle⟩, -⟩ := hops
      refine Ensures.bind ((primary_yields hi hc₂).mono fun base c₃ h₃ => ?_)
      refine Ensures.bind ((indexed_yields hi hc₂ h₃).mono fun x c₄ h₄ => ?_)
      refine Ensures.bind ((raised_yields hi h₄).mono fun operand c₅ h₅ => ?_)
      exact counted_yields rfl (fun h => absurd h hne) hle h₅
  · obtain ⟨goOn', hprimary, rfl⟩ := Option.map_eq_some_iff.1 hs
    exact Ensures.bind ((primary?_yields hi hc ht hprimary).mono fun base c₂ h₂ =>
      raised_indexed_yields hi hc h₂)

theorem chain_yields (hi : inner.Spanned n) (hc : c.Placed n) :
    (chain inner).Ensures c fun e c' => c.Yields n (.expression e) c' := by
  refine Ensures.bind ((primary_yields hi hc).mono fun base c₁ h₁ => Ensures.bind
    ((Ensures.repeatTaking (I := fun suffixes c' => Begun n c base (suffixes.map .suffix) c')
      (.of_yields hc h₁) ?_).mono fun suffixes c' hs => chained_yields hs.1))
  intro suffixes c₂ goOn c₃ hI hn ht
  have hc₂ := hI.row.placed
  split at hn
  · next hbracket =>
    cases hn
    have hend : c₂.atEnd = false := ne_atEnd_of_looksAt (Bool.and_eq_true_iff.1 hbracket).1
    exact Ensures.bind ((index_lays hi hc₂ ht hend).mono fun s c₄ h₄ =>
      Ensures.pure (by simpa using hI.snoc h₄))
  · obtain ⟨goOn', hargument, rfl⟩ := Option.map_eq_some_iff.1 hn
    refine Ensures.bind ((argument?_yields hi hc₂ ht hargument).mono fun arg c₄ h₄ =>
      Ensures.pure ?_)
    have hlt := (Node.nested_iff.1 h₄.nested).1.nonempty
    have hsuffix : (Node.suffix (.apply arg)).Nested :=
      Node.nested_of_laid hlt (.single h₄.nested (Nat.le_refl _) (Nat.le_refl _)) (by simp)
    have hrow := (h₄.lays hc₂).laid
    have hlays : c₂.Lays n [.suffix (.apply arg)] c₄ :=
      ⟨.single hsuffix hrow.1 hrow.2.2, h₄.placed⟩
    simpa using hI.snoc hlays

/-! ## Operators -/

theorem power_yields (hi : inner.Spanned n) (hc : c.Placed n) :
    (power inner).Ensures c fun e c' => c.Yields n (.expression e) c' :=
  Ensures.bind ((chain_yields hi hc).mono fun _ _ h => raised_yields hi h)

theorem unary_yields (hi : inner.Spanned n) (hc : c.Placed n) :
    (unary inner).Ensures c fun e c' => c.Yields n (.expression e) c' := by
  refine Ensures.look_bind (Ensures.bind ((Ensures.repeatTaking (I := fun ops c' => c'.Placed n ∧
    c.current.span.start.offset ≤ c'.current.span.start.offset ∧ (ops = [] → c' = c))
      ⟨hc, Nat.le_refl _, fun _ => rfl⟩ ?_).mono fun ops c₁ hops => ?_))
  · rintro ops c₁ goOn c₂ ⟨hc₁, hle, -⟩ hn ht
    obtain ⟨op, -, rfl⟩ := Option.map_eq_some_iff.1 hn
    exact Ensures.pure ⟨(hc₁.take ht).1, Nat.le_trans hle (start_le_take hc₁ ht), by simp⟩
  · obtain ⟨⟨hc₁, hle, hempty⟩, -⟩ := hops
    exact Ensures.bind ((power_yields hi hc₁).mono fun operand c₂ h₂ =>
      counted_yields rfl hempty hle h₂)

/-- What the parser of an operand yields. -/
def Operand (n : Nat) (p : Parser Expr) : Prop :=
  ∀ c : Cursor, c.Placed n → p.Ensures c fun e c' => c.Yields n (.expression e) c'

theorem binary_yields (tier : Tier) {operand : Parser Expr} (hoperand : Operand n operand) :
    Operand n (binary tier operand) := by
  intro c hc
  refine Ensures.bind ((hoperand c hc).mono fun first c₁ h₁ => ((Ensures.repeatTaking
    (I := fun left c' => c.Yields n (.expression left) c') h₁ ?_).mono fun e c' h => h.1))
  intro left c₂ goOn c₃ hI hn ht
  obtain ⟨op, -, rfl⟩ := Option.map_eq_some_iff.1 hn
  exact Ensures.bind ((hoperand c₃ (hI.placed.take ht).1).mono fun right c₄ h₄ =>
    Ensures.pure (hI.pair ht h₄ rfl rfl))

theorem listed_yields {p : Punct} {node : Span → List Expr → Expr} {operand : Parser Expr}
    (hnode : ∀ s es, (node s es).span = s ∧ (node s es).parts = es.map .expression)
    (hoperand : Operand n operand) : Operand n (listed p node operand) := by
  intro c hc
  refine Ensures.bind ((Ensures.separated (J := fun _ _ => False) (I := fun es c' =>
    ∃ first rest, es = first :: rest ∧ Begun n c first (rest.map .expression) c')
      ?_ ?_ (by simp)).mono ?_)
  · exact (hoperand c hc).mono fun first c₁ h₁ => ⟨first, [], rfl, .of_yields hc h₁⟩
  · rintro _ c₁ goOn c₂ ⟨first, rest, rfl, hbegun⟩ hs ht
    unfold atPunct at hs
    split at hs <;> cases hs
    have hpassed := hbegun.row.placed.lays_take ht
    refine Ensures.pure ?_
    rw [if_neg (by simp)]
    refine (hoperand c₂ hpassed.placed).mono fun e c₃ h₃ => ⟨first, rest ++ [e], rfl, ?_⟩
    simpa using hbegun.snoc (hpassed.behind (h₃.lays hpassed.placed))
  · rintro ⟨first, rest⟩ c' (⟨⟨_, _, hes, hbegun⟩, -⟩ | hfalse)
    · cases hes
      dsimp only
      split
      · next hempty =>
        cases List.isEmpty_iff.1 hempty
        exact Ensures.pure (hbegun.alone rfl)
      · exact Ensures.look_bind (Ensures.pure (hbegun.yields (hnode ..).1 (hnode ..).2))
    · exact hfalse.elim

theorem multiplicative_yields (hi : inner.Spanned n) : Operand n (multiplicative inner) :=
  binary_yields .multiplicative fun _ hc => unary_yields hi hc

theorem additive_yields (hi : inner.Spanned n) : Operand n (additive inner) :=
  binary_yields .additive (multiplicative_yields hi)

theorem comparison_yields (hi : inner.Spanned n) : Operand n (comparison inner) :=
  binary_yields .comparison (additive_yields hi)

theorem join_yields (hi : inner.Spanned n) : Operand n (join inner) :=
  listed_yields (fun _ _ => ⟨rfl, rfl⟩) (comparison_yields hi)

theorem pipe_yields (hi : inner.Spanned n) : Operand n (pipe inner) :=
  listed_yields (fun _ _ => ⟨rfl, rfl⟩) (join_yields hi)

theorem assignment_yields (hi : inner.Spanned n) : Operand n (assignment inner) := by
  intro c hc
  refine Ensures.bind ((pipe_yields hi c hc).mono fun target c₁ h₁ => Ensures.look_bind ?_)
  split
  · refine Ensures.bind (Ensures.discard_take fun c₂ ht => ?_)
    exact Ensures.bind ((hi.expression c₂ (h₁.placed.take ht).1).mono fun value c₃ h₃ =>
      Ensures.pure (h₁.pair ht h₃ rfl rfl))
  · exact Ensures.pure h₁

/-! ## Levels -/

/-- Expressions of every level are all that is read for them. -/
theorem level_spanned (n k : Nat) : (level k).Spanned n := by
  induction k with
  | zero => exact ⟨fun _ _ => Ensures.fail, fun _ _ => Ensures.fail⟩
  | succ k ih => exact ⟨assignment_yields ih, fun _ hc => unary_yields ih hc⟩

end WqSource.Grammar
