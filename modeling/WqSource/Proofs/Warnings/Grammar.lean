import WqSource.Grammar.Expression
import WqSource.Proofs.Grammar.Contract
import WqSource.Proofs.Warnings.Node

/-!
# What is noted while a tree is read

A parser that has a result has noted the warnings of the nodes that it has read, in their order,
and nothing else. Only the parser of names notes anything, and each name that it reads is a node
of the tree that is read in the end: nothing is read twice, and nothing that was read is dropped.

## Main definitions

* `Cursor.Warns`: what has been noted between two cursors.
* `Parser.Silent`: parsers that read no nodes.
* `Inner.Warning`: what is asked of the parsers of expressions.

## Main statements

* `separated_warns`: sequences with separators.
* `primary_warns`, `assignment_warns`: the tiers.
* `level_warns`: every level.
-/

namespace WqSource
open Grammar WqSource.Parser

namespace Cursor
variable {c c₁ c₂ c' : Cursor} {x : Node} {xs ys : List Node}

/-- The warnings of the nodes, and nothing else, have been noted between the two cursors. -/
def Warns (c : Cursor) (xs : List Node) (c' : Cursor) : Prop :=
  c'.problems = c.problems ++ Node.warnings xs

namespace Warns

theorem refl : c.Warns [] c := (List.append_nil _).symm

theorem trans (h : c.Warns xs c₁) (h' : c₁.Warns ys c₂) : c.Warns (xs ++ ys) c₂ := by
  unfold Warns at *
  rw [h', h, Node.warnings_append, List.append_assoc]

theorem behind (h : c.Warns [] c₁) (h' : c₁.Warns xs c₂) : c.Warns xs c₂ := h.trans h'

theorem before (h : c.Warns xs c₁) (h' : c₁.Warns [] c₂) : c.Warns xs c₂ := by
  simpa using h.trans h'

theorem take {t : Token} (ht : c.take = (.ok t, c₁)) : c.Warns [] c₁ := by
  obtain ⟨-, next, ahead, -, rfl⟩ := take_ok ht
  exact .refl

/-- A node that is no name has the warnings of its parts. -/
theorem node (h : c.Warns x.parts c') (hx : x.warning? = none) : c.Warns [x] c' := by
  unfold Warns
  rw [Node.warnings_parts hx]
  exact h

/-- A branch has the warnings of its statements. -/
theorem branch {b : Branch} (h : c.Warns (b.statements.map .statement) c') :
    c.Warns [.branch b] c' :=
  node h rfl

end Warns
end Cursor

namespace Parser
variable {α β : Type} {c : Cursor}

/-- The parser reads no nodes and notes nothing. -/
def Silent (p : Parser α) : Prop := ∀ c, p.Ensures c fun _ c' => c.Warns [] c'

namespace Silent

theorem pure (a : α) : Silent (Pure.pure a : Parser α) := fun _ => Ensures.pure .refl

theorem bind {p : Parser α} {f : α → Parser β} (h : Silent p) (hf : ∀ a, Silent (f a)) :
    Silent (p >>= f) := fun c =>
  Ensures.bind ((h c).mono fun a c₁ h₁ => (hf a c₁).mono fun _ _ h₂ => h₁.behind h₂)

theorem look (f : Cursor → α) : Silent (Parser.look f) := fun _ => Ensures.look .refl

theorem discard_take : Silent (discard Parser.take) := fun _ =>
  Ensures.discard_take fun _ ht => .take ht

theorem peek : Silent Parser.peek := fun _ => Ensures.peek fun _ _ => .refl

theorem repeatTaking {next : α → Cursor → Option (Token → Parser α)}
    (h : ∀ a c k t, next a c = some k → Silent (k t)) (a : α) : Silent (repeatTaking next a) :=
  fun c => (Ensures.repeatTaking (I := fun _ c' => c.Warns [] c') .refl
    fun a c₁ k c₂ hI hn ht => (h a c₁ k _ hn c₂).mono fun _ _ h₃ =>
      hI.behind ((Cursor.Warns.take ht).behind h₃)).mono fun _ _ h => h.1

theorem skipWhile (test : Cursor → Bool) : Silent (skipWhile test) :=
  repeatTaking (fun _ c k t hn => by
    split at hn
    · cases hn
      exact pure ()
    · cases hn) ()

theorem expect (p : Punct) (expected : Expectation) : Silent (expect p expected) := fun _ =>
  Ensures.expect fun _ _ ht => .take ht

end Silent
end Parser

namespace Grammar
variable {α : Type} {inner : Inner} {c c₁ : Cursor} {t : Token}

/-! ## Sequences -/

theorem skipNewlines_silent : Silent skipNewlines := .skipWhile _

theorem skipSeparators_silent : Silent skipSeparators := .skipWhile _

/-- What goes on behind the first token of a separator reads no nodes. -/
def SilentBehind (separator : Cursor → Option (Token → Parser Unit)) : Prop :=
  ∀ c goOn, separator c = some goOn → ∀ t, Silent (goOn t)

theorem silentBehind_ite {test : Cursor → Bool} {goOn : Token → Parser Unit}
    (h : ∀ t, Silent (goOn t)) : SilentBehind fun c => if test c then some goOn else none := by
  intro c k hk t
  dsimp only at hk
  split at hk
  · cases hk
    exact h t
  · cases hk

theorem restOfSeparator_silent (t : Token) : Silent (restOfSeparator t) := by
  unfold restOfSeparator
  split
  · refine .bind (.look _) fun semicolon => ?_
    split
    · exact .bind .discard_take fun _ => skipNewlines_silent
    · exact .pure _
  · exact skipNewlines_silent

theorem separator_silent : SilentBehind separator := silentBehind_ite restOfSeparator_silent

/-- Where the items of a sequence note their warnings, the sequence does. -/
theorem separated_warns {f : α → List Node} {item : Parser α}
    {separator : Cursor → Option (Token → Parser Unit)} {stop : Cursor → Bool}
    (hitem : ∀ c, item.Ensures c fun a c' => c.Warns (f a) c') (hseparator : SilentBehind separator)
    (c : Cursor) :
    (separated item separator stop).Ensures c fun as c' =>
      c.Warns ((as.1 :: as.2).flatMap f) c' := by
  refine Ensures.bind ((hitem c).mono fun first c₁ h₁ => Ensures.bind ((Ensures.repeatTaking
    (I := fun rest c' => c.Warns ((first :: rest).flatMap f) c') (by simpa using h₁) ?_).mono
      fun rest c' h => Ensures.pure h.1))
  intro rest c₂ goOn c₃ hI hn ht
  obtain ⟨goOn', hgoOn, rfl⟩ := Option.map_eq_some_iff.1 hn
  refine Ensures.bind ((hseparator c₂ goOn' hgoOn _ c₃).mono fun _ c₄ h₄ => Ensures.look_bind ?_)
  have h₄ := hI.before ((Cursor.Warns.take ht).behind h₄)
  split
  · exact Ensures.pure h₄
  · refine Ensures.bind ((hitem c₄).mono fun a c₅ h₅ => Ensures.pure ?_)
    simpa using h₄.trans h₅

/-- A bracket that closes what was read is no node. -/
theorem closed_warns {f : α → List Node} {a : α} {close : Punct} {expected : Expectation}
    (h : c.Warns (f a) c₁) :
    (expect close expected >>= fun _ => Pure.pure a).Ensures c₁ fun a c' => c.Warns (f a) c' :=
  Ensures.bind ((Silent.expect _ _ c₁).mono fun _ _ h₂ => Ensures.pure (h.before h₂))

theorem items_warns {f : α → List Node} {close : Punct} {item : Parser α}
    (hitem : ∀ c, item.Ensures c fun a c' => c.Warns (f a) c') (c : Cursor) :
    (items close item).Ensures c fun as c' => c.Warns (as.flatMap f) c' := by
  refine Ensures.bind ((skipNewlines_silent c).mono fun _ c₁ h₁ => Ensures.look_bind ?_)
  split
  · exact Ensures.bind (Ensures.pure (closed_warns h₁))
  · refine Ensures.bind ((separated_warns hitem separator_silent c₁).mono ?_)
    rintro ⟨first, rest⟩ c₂ h₂
    exact Ensures.bind (Ensures.pure (closed_warns (h₁.behind h₂)))

/-! ## Statements -/

/-- The parsers of expressions note the warnings of what they read. -/
structure Inner.Warning (inner : Inner) : Prop where
  expression : ∀ c, inner.expression.Ensures c fun e c' => c.Warns [.expression e] c'
  exponent : ∀ c, inner.exponent.Ensures c fun e c' => c.Warns [.expression e] c'

theorem statement_warns
    (h : ∀ c, inner.expression.Ensures c fun e c' => c.Warns [.expression e] c') (c : Cursor) :
    (statement inner).Ensures c fun s c' => c.Warns [.statement s] c' := by
  refine Ensures.look_bind ?_
  split
  · exact Ensures.bind (Ensures.take fun c₁ ht => Ensures.pure (.node (.take ht) rfl))
  · exact Ensures.bind ((h c).mono fun e c' he => Ensures.pure (.node he rfl))

theorem statements_warns {separator : Cursor → Option (Token → Parser Unit)}
    {stop : Cursor → Bool} (hi : inner.Warning) (hseparator : SilentBehind separator)
    (c : Cursor) :
    (statements inner separator stop).Ensures c fun b c' =>
      c.Warns (b.statements.map .statement) c' := by
  refine Ensures.bind ((separated_warns (f := fun s => [.statement s])
    (statement_warns hi.expression) hseparator c).mono fun as c' h => Ensures.pure ?_)
  rwa [← List.map_eq_flatMap] at h

theorem functionBody_warns (hi : inner.Warning) (c : Cursor) :
    (functionBody inner).Ensures c fun b c' => c.Warns (b.toList.map .branch) c' := by
  refine Ensures.bind ((skipSeparators_silent c).mono fun _ c₁ h₁ => Ensures.look_bind ?_)
  split
  · exact Ensures.bind (Ensures.pure (closed_warns h₁))
  · exact Ensures.bind (Ensures.map ((statements_warns hi
      (silentBehind_ite fun _ => skipSeparators_silent) c₁).mono fun b c₂ h₂ =>
        closed_warns (h₁.behind h₂.branch)))

theorem arm_warns (hi : inner.Warning) (c : Cursor) :
    (arm inner).Ensures c fun b c' => c.Warns [.branch b] c' :=
  Ensures.bind ((skipNewlines_silent c).mono fun _ c₁ h₁ =>
    (statements_warns hi separator_silent c₁).mono fun _ _ h₂ => h₁.behind h₂.branch)

theorem firstArm_warns (hi : inner.Warning) (c : Cursor) :
    (firstArm inner).Ensures c fun b c' => c.Warns (b.statements.map .statement) c' :=
  Ensures.bind ((skipNewlines_silent c).mono fun _ c₁ h₁ =>
    (statements_warns hi (silentBehind_ite fun _ => .pure ()) c₁).mono fun _ _ h₂ => h₁.behind h₂)

theorem head_warns (hi : inner.Warning) (c : Cursor) :
    (head inner).Ensures c fun e c' => c.Warns [.expression e] c' := by
  refine Ensures.bind ((skipNewlines_silent c).mono fun _ c₁ h₁ => Ensures.bind
    ((hi.expression c₁).mono fun e c₂ h₂ => Ensures.bind (Ensures.choose fun goOn c₃ hn ht => ?_)))
  have h₃ := (h₁.behind h₂).before (.take ht)
  have hgoOn : Silent (goOn c₂.current) := by
    split at hn
    · cases hn
      exact .pure ()
    · split at hn
      · cases hn
        exact skipNewlines_silent
      · cases hn
  exact (hgoOn c₃).mono fun _ c₄ h₄ => Ensures.pure (h₃.before h₄)

/-! ## Primaries -/

theorem param_silent : Silent param := by
  refine fun c => Ensures.choose fun goOn c₁ hn ht => ?_
  split at hn
  · cases hn
    exact Ensures.pure (.take ht)
  · cases hn

/-- Parameters are no uses of names. -/
theorem warnings_params (ps : List Param) : Node.warnings (ps.map .param) = [] := by
  induction ps with
  | nil => rfl
  | cons p ps ih =>
    rw [List.map_cons, ← List.singleton_append, Node.warnings_append, ih,
      Node.warnings_parts (by rfl)]
    rfl

theorem params_warns (c : Cursor) : params.Ensures c fun _ c' => c.Warns [] c' := by
  refine Ensures.look_bind ?_
  split
  · exact Ensures.bind (Ensures.pure (closed_warns .refl))
  · refine Ensures.bind ((separated_warns (f := fun _ => []) param_silent
      (silentBehind_ite fun _ => .pure ()) c).mono ?_)
    rintro ⟨first, rest⟩ c₂ h₂
    rw [List.flatMap_eq_nil_iff.2 fun _ _ => rfl] at h₂
    exact Ensures.bind (Ensures.pure (closed_warns h₂))

theorem function_warns (hi : inner.Warning) (c : Cursor) :
    (function inner t).Ensures c fun e c' => c.Warns [.expression e] c' := by
  refine Ensures.look_bind ?_
  have hbody (ps : List Param) {c₂ : Cursor} (h₂ : c.Warns [] c₂) :
      (functionBody inner >>= fun body => spanFrom t.span.start >>= fun s =>
        Pure.pure (Expr.function s ps body)).Ensures c₂ fun e c' => c.Warns [.expression e] c' := by
    refine Ensures.bind ((functionBody_warns hi c₂).mono fun body c₃ h₃ =>
      Ensures.look_bind (Ensures.pure (.node ?_ rfl)))
    have hparams : c.Warns (ps.map .param) c := by
      unfold Cursor.Warns
      rw [warnings_params, List.append_nil]
    exact hparams.trans (h₂.behind h₃)
  split
  · exact Ensures.bind (Ensures.discard_take fun c₂ ht => Ensures.bind ((params_warns c₂).mono
      fun ps c₃ h₃ => hbody ps ((Cursor.Warns.take ht).behind h₃)))
  · exact Ensures.bind (Ensures.pure (hbody [] .refl))

theorem entry_warns (hi : inner.Warning) (c : Cursor) :
    (entry inner).Ensures c fun e c' => c.Warns e.nodes c' := by
  refine Ensures.choose fun goOn c₁ hn ht => ?_
  split at hn
  · cases hn
    refine Ensures.bind ((Silent.expect _ _ c₁).mono fun _ c₂ h₂ => ?_)
    have hkey : c.Warns [.key c.current.span] c₂ := .node ((Cursor.Warns.take ht).behind h₂) rfl
    exact Ensures.bind ((hi.expression c₂).mono fun value c₃ h₃ => Ensures.pure (hkey.trans h₃))
  · cases hn

theorem startsDict_silent : Silent startsDict := by
  refine .bind (.look _) fun k => ?_
  split
  · exact .bind .peek fun _ => .pure _
  · exact .pure _

theorem group_warns (hi : inner.Warning) (c : Cursor) :
    (group inner t).Ensures c fun e c' => c.Warns [.expression e] c' := by
  refine Ensures.bind ((skipNewlines_silent c).mono fun _ c₁ h₁ => Ensures.look_bind ?_)
  split
  · exact Ensures.bind (Ensures.discard_take fun c₂ ht => Ensures.look_bind (Ensures.pure
      (.node (h₁.before (.take ht)) rfl)))
  · refine Ensures.bind ((startsDict_silent c₁).mono fun isDict c₂ h₂ => ?_)
    have h₂ := h₁.before h₂
    split
    · exact Ensures.bind ((items_warns (entry_warns hi) c₂).mono fun es c₃ h₃ =>
        Ensures.look_bind (Ensures.pure (.node (h₂.behind h₃) rfl)))
    · refine Ensures.bind ((items_warns hi.expression c₂).mono fun es c₃ h₃ =>
        Ensures.look_bind (Ensures.pure (.node (h₂.behind ?_) rfl)))
      change c₂.Warns (es.map .expression) c₃
      rwa [List.map_eq_flatMap]

/-- A branch that is divided keeps its statements. -/
theorem splitLast_warns {b : Branch} {both : Branch × Branch} {c' : Cursor}
    (h : c.Warns (b.statements.map .statement) c') (hsplit : b.splitLast? = some both) :
    c.Warns [.branch both.1, .branch both.2] c' := by
  have hdivided : b.statements = both.1.statements ++ both.2.statements := by
    unfold Branch.splitLast? at hsplit
    split at hsplit
    · next first second rest hb =>
      cases hsplit
      rw [hb]
      change _ = (first :: (second :: rest).dropLast) ++ [(second :: rest).getLast (by simp)]
      rw [List.cons_append, List.dropLast_append_getLast]
    · cases hsplit
  have hboth : Node.warnings [.branch both.1, .branch both.2] =
      Node.warnings (b.statements.map .statement) := by
    rw [← List.singleton_append, Node.warnings_append, Node.warnings_parts (by rfl),
      Node.warnings_parts (x := .branch both.2) (by rfl), ← Node.warnings_append, hdivided,
      List.map_append]
    rfl
  unfold Cursor.Warns
  rw [hboth]
  exact h

theorem arms_warns (hi : inner.Warning) (c : Cursor) :
    (arms inner).Ensures c fun both c' => c.Warns [.branch both.1, .branch both.2] c' := by
  refine Ensures.bind ((firstArm_warns hi c).mono fun first c₁ h₁ => Ensures.look_bind ?_)
  split
  · split
    · next both hsplit => exact Ensures.pure (splitLast_warns h₁ hsplit)
    · exact Ensures.fail
  · refine Ensures.bind ((Silent.expect _ _ c₁).mono fun _ c₂ h₂ => ?_)
    exact Ensures.bind ((arm_warns hi c₂).mono fun second c₃ h₃ =>
      Ensures.pure ((h₁.branch.before h₂).trans h₃))

theorem conditional_warns (hi : inner.Warning) (c : Cursor) :
    (conditional inner t).Ensures c fun e c' => c.Warns [.expression e] c' := by
  refine Ensures.look_bind ?_
  split
  · refine Ensures.bind (Ensures.discard_take fun c₁ ht => ?_)
    refine Ensures.bind ((Silent.expect _ _ c₁).mono fun _ c₂ h₂ => ?_)
    refine Ensures.bind ((head_warns hi c₂).mono fun condition c₃ h₃ => ?_)
    refine Ensures.bind ((arm_warns hi c₃).mono fun arm c₄ h₄ => ?_)
    refine Ensures.bind ((Silent.expect _ _ c₄).mono fun _ c₅ h₅ => Ensures.look_bind ?_)
    have h₂ := (Cursor.Warns.take ht).behind h₂
    exact Ensures.pure (.node (((h₂.behind h₃).trans h₄).before h₅) rfl)
  · refine Ensures.bind ((Silent.expect _ _ c).mono fun _ c₁ h₁ => ?_)
    refine Ensures.bind ((head_warns hi c₁).mono fun condition c₂ h₂ => ?_)
    refine Ensures.bind ((arms_warns hi c₂).mono ?_)
    rintro ⟨thenArm, elseArm⟩ c₃ h₃
    refine Ensures.bind ((Silent.expect _ _ c₃).mono fun _ c₄ h₄ => Ensures.look_bind ?_)
    exact Ensures.pure (.node (((h₁.behind h₂).trans h₃).before h₄) rfl)

theorem loop_warns {node : Span → Expr → Branch → Expr} (hi : inner.Warning)
    (hnode : ∀ s e b, (node s e b).parts = [.expression e, .branch b] ∧
      (Node.expression (node s e b)).warning? = none) (c : Cursor) :
    (loop inner node t).Ensures c fun e c' => c.Warns [.expression e] c' := by
  refine Ensures.bind (Ensures.discard_take fun c₁ ht => ?_)
  refine Ensures.bind ((head_warns hi c₁).mono fun condition c₂ h₂ => ?_)
  refine Ensures.bind ((arm_warns hi c₂).mono fun body c₃ h₃ => ?_)
  refine Ensures.bind ((Silent.expect _ _ c₃).mono fun _ c₄ h₄ => Ensures.look_bind ?_)
  obtain ⟨hparts, hnone⟩ := hnode (c₄.spanFrom t.span.start) condition body
  refine Ensures.pure (.node ?_ hnone)
  change c.Warns (node (c₄.spanFrom t.span.start) condition body).parts c₄
  rw [hparts]
  exact ((Cursor.Warns.take ht).behind (h₂.trans h₃)).before h₄

/-- A name that begins no loop is noted if a reader is warned of it. -/
theorem identifier_warns {name : String} (hi : inner.Warning) (c : Cursor) :
    (identifier inner name t).Ensures c fun e c' => c.Warns [.expression e] c' := by
  have hwarnings : Node.warnings [.expression (.name t.span name false)] =
      ((Name.constantSpelled? name).map fun word =>
        Problem.legacySpelling name word t.span).toList := by
    unfold Node.warnings Name.constantSpelled?
    rw [List.flatMap_singleton, Node.all_eq]
    by_cases hname : name.toLower = "inf" ∨ name.toLower = "nan" <;>
      simp [Node.parts, Expr.parts, Node.warning?, hname]
  refine Ensures.look_bind ?_
  split
  · next node hname hopen =>
    refine loop_warns hi (fun s e b => ?_) c
    unfold loopOfName? at hname
    split at hname <;> cases hname <;> exact ⟨rfl, rfl⟩
  · split
    · next word hword =>
      refine Ensures.bind (Ensures.note (Ensures.pure ?_))
      unfold Cursor.Warns
      rw [hwarnings, hword]
      rfl
    · next hword =>
      refine Ensures.pure ?_
      unfold Cursor.Warns
      rw [hwarnings, Option.eq_none_iff_forall_ne_some.2 hword]
      exact (List.append_nil _).symm

theorem control_warns {word : ControlWord} (hi : inner.Warning) (c : Cursor) :
    (control inner t word).Ensures c fun e c' => c.Warns [.expression e] c' := by
  cases word with
  | returning =>
    refine Ensures.look_bind ?_
    split
    · exact Ensures.bind (Ensures.map ((hi.expression c).mono fun value c₁ h₁ =>
        Ensures.look_bind (Ensures.pure (.node h₁ rfl))))
    · exact Ensures.bind (Ensures.pure (Ensures.look_bind (Ensures.pure (.node .refl rfl))))
  | breaking | continuing => exact Ensures.pure (.node .refl rfl)
  | asserting | trying =>
    exact Ensures.bind ((hi.expression c).mono fun e c₁ h₁ =>
      Ensures.look_bind (Ensures.pure (.node h₁ rfl)))

theorem primary?_warns {goOn : Token → Parser Expr} {k : Token.Kind} (hi : inner.Warning)
    (hs : primary? inner k = some goOn) (c : Cursor) :
    (goOn t).Ensures c fun e c' => c.Warns [.expression e] c' := by
  unfold primary? at hs
  split at hs <;> cases hs
  case h_9 => exact identifier_warns hi c
  case h_11 => exact function_warns hi c
  case h_12 => exact group_warns hi c
  case h_13 => exact conditional_warns hi c
  case h_14 => exact control_warns hi c
  all_goals exact Ensures.pure (.node .refl rfl)

theorem primary_warns (hi : inner.Warning) (c : Cursor) :
    (primary inner).Ensures c fun e c' => c.Warns [.expression e] c' :=
  Ensures.choose fun _ c₁ hn ht => (primary?_warns hi hn c₁).mono fun _ _ h =>
    (Cursor.Warns.take ht).behind h

/-! ## Chains -/

theorem index_warns (hi : inner.Warning) (c : Cursor) :
    (index inner t).Ensures c fun s c' => c.Warns [.suffix s] c' := by
  refine Ensures.bind ((items_warns hi.expression c).mono fun es c₂ h₂ =>
    Ensures.look_bind (Ensures.pure (.node ?_ rfl)))
  change c.Warns (es.map .expression) c₂
  rwa [List.map_eq_flatMap]

theorem chained_warns {base : Expr} {suffixes : List Suffix}
    (h : c.Warns (.expression base :: suffixes.map .suffix) c₁) :
    (chained base suffixes).Ensures c₁ fun e c' => c.Warns [.expression e] c' := by
  unfold chained
  split
  · next hempty =>
    cases List.isEmpty_iff.1 hempty
    exact Ensures.pure h
  · exact Ensures.look_bind (Ensures.pure (.node h rfl))

theorem indexed_warns {base : Expr} (hi : inner.Warning) (h : c.Warns [.expression base] c₁) :
    (indexed inner base).Ensures c₁ fun e c' => c.Warns [.expression e] c' := by
  refine Ensures.bind ((Ensures.repeatTaking (I := fun suffixes c' =>
    c.Warns (.expression base :: suffixes.map .suffix) c') h ?_).mono fun suffixes c' hs =>
      chained_warns hs.1)
  intro suffixes c₂ goOn c₃ hI hn ht
  split at hn
  · cases hn
    exact Ensures.bind ((index_warns hi c₃).mono fun s c₄ h₄ =>
      Ensures.pure (by simpa using hI.trans ((Cursor.Warns.take ht).behind h₄)))
  · cases hn

theorem raised_warns {base : Expr} (hi : inner.Warning) (h : c.Warns [.expression base] c₁) :
    (raised inner base).Ensures c₁ fun e c' => c.Warns [.expression e] c' := by
  refine Ensures.look_bind ?_
  split
  · exact Ensures.bind (Ensures.discard_take fun c₂ ht => Ensures.bind ((hi.exponent c₂).mono
      fun exponent c₃ h₃ => Ensures.pure (.node ((h.before (.take ht)).trans h₃) rfl)))
  · exact Ensures.pure h

theorem counted_warns {start : Position} {ops : List UnaryOp} {operand : Expr}
    (h : c.Warns [.expression operand] c₁) :
    (counted start ops operand).Ensures c₁ fun e c' => c.Warns [.expression e] c' := by
  unfold counted
  split
  · exact Ensures.pure h
  · exact Ensures.look_bind (Ensures.pure (.node h rfl))

theorem argument?_warns {goOn : Token → Parser Expr} {k : Token.Kind} (hi : inner.Warning)
    (hs : argument? inner k = some goOn) (c : Cursor) :
    (goOn t).Ensures c fun e c' => c.Warns [.expression e] c' := by
  unfold argument? at hs
  split at hs
  · cases hs
    have hops : Silent (repeatTaking (fun ops : List UnaryOp =>
        atPunct .hash fun _ => return ops ++ [.count]) [.count]) :=
      .repeatTaking (fun ops c k t hn => by
        unfold atPunct at hn
        split at hn
        · cases hn
          exact .pure _
        · cases hn) _
    refine Ensures.bind ((hops c).mono fun ops c₁ h₁ => ?_)
    refine Ensures.bind ((primary_warns hi c₁).mono fun base c₂ h₂ => ?_)
    refine Ensures.bind ((indexed_warns hi (h₁.behind h₂)).mono fun indexed c₃ h₃ => ?_)
    exact Ensures.bind ((raised_warns hi h₃).mono fun operand c₄ h₄ => counted_warns h₄)
  · obtain ⟨goOn', hprimary, rfl⟩ := Option.map_eq_some_iff.1 hs
    refine Ensures.bind ((primary?_warns hi hprimary c).mono fun base c₁ h₁ => ?_)
    exact Ensures.bind ((indexed_warns hi h₁).mono fun indexed c₂ h₂ => raised_warns hi h₂)

theorem chain_warns (hi : inner.Warning) (c : Cursor) :
    (chain inner).Ensures c fun e c' => c.Warns [.expression e] c' := by
  refine Ensures.bind ((primary_warns hi c).mono fun base c₁ h₁ => Ensures.bind
    ((Ensures.repeatTaking (I := fun suffixes c' =>
      c.Warns (.expression base :: suffixes.map .suffix) c') h₁ ?_).mono fun suffixes c' hs =>
        chained_warns hs.1))
  intro suffixes c₂ goOn c₃ hI hn ht
  split at hn
  · cases hn
    exact Ensures.bind ((index_warns hi c₃).mono fun s c₄ h₄ =>
      Ensures.pure (by simpa using hI.trans ((Cursor.Warns.take ht).behind h₄)))
  · obtain ⟨goOn', hargument, rfl⟩ := Option.map_eq_some_iff.1 hn
    refine Ensures.bind ((argument?_warns hi hargument c₃).mono fun arg c₄ h₄ => Ensures.pure ?_)
    have hsuffix : c₂.Warns [.suffix (.apply arg)] c₄ :=
      .node ((Cursor.Warns.take ht).behind h₄) rfl
    simpa using hI.trans hsuffix

/-! ## Operators -/

theorem power_warns (hi : inner.Warning) (c : Cursor) :
    (power inner).Ensures c fun e c' => c.Warns [.expression e] c' :=
  Ensures.bind ((chain_warns hi c).mono fun _ _ h => raised_warns hi h)

theorem unary_warns (hi : inner.Warning) (c : Cursor) :
    (unary inner).Ensures c fun e c' => c.Warns [.expression e] c' := by
  have hops : Silent (repeatTaking (fun ops c => (unaryOp? c.current.kind).map fun op _ =>
      return ops ++ [op]) []) :=
    .repeatTaking (fun ops c k t hn => by
      obtain ⟨op, -, rfl⟩ := Option.map_eq_some_iff.1 hn
      exact .pure _) _
  refine Ensures.look_bind (Ensures.bind ((hops c).mono fun ops c₁ h₁ => ?_))
  exact Ensures.bind ((power_warns hi c₁).mono fun operand c₂ h₂ => counted_warns (h₁.behind h₂))

theorem binary_warns (tier : Tier) {operand : Parser Expr}
    (h : ∀ c, operand.Ensures c fun e c' => c.Warns [.expression e] c') (c : Cursor) :
    (binary tier operand).Ensures c fun e c' => c.Warns [.expression e] c' := by
  refine Ensures.bind ((h c).mono fun first c₁ h₁ => (Ensures.repeatTaking
    (I := fun left c' => c.Warns [.expression left] c') h₁ ?_).mono fun _ _ he => he.1)
  intro left c₂ goOn c₃ hI hn ht
  obtain ⟨op, -, rfl⟩ := Option.map_eq_some_iff.1 hn
  exact Ensures.bind ((h c₃).mono fun right c₄ h₄ =>
    Ensures.pure (.node ((hI.before (.take ht)).trans h₄) rfl))

theorem listed_warns {mark : Punct} {node : Span → List Expr → Expr} {operand : Parser Expr}
    (hnode : ∀ s es, (node s es).parts = es.map .expression ∧
      (Node.expression (node s es)).warning? = none)
    (h : ∀ c, operand.Ensures c fun e c' => c.Warns [.expression e] c') (c : Cursor) :
    (listed mark node operand).Ensures c fun e c' => c.Warns [.expression e] c' := by
  refine Ensures.bind ((separated_warns h (silentBehind_ite fun _ => .pure ()) c).mono ?_)
  rintro ⟨first, rest⟩ c₁ h₁
  rw [← List.map_eq_flatMap] at h₁
  dsimp only
  split
  · next hempty =>
    cases List.isEmpty_iff.1 hempty
    exact Ensures.pure h₁
  · refine Ensures.look_bind ?_
    obtain ⟨hparts, hnone⟩ := hnode (c₁.spanFrom first.span.start) (first :: rest)
    refine Ensures.pure (.node ?_ hnone)
    change c.Warns (node (c₁.spanFrom first.span.start) (first :: rest)).parts c₁
    rwa [hparts]

theorem pipe_warns (hi : inner.Warning) (c : Cursor) :
    (pipe inner).Ensures c fun e c' => c.Warns [.expression e] c' :=
  listed_warns (fun _ _ => ⟨rfl, rfl⟩) (listed_warns (fun _ _ => ⟨rfl, rfl⟩)
    (binary_warns _ (binary_warns _ (binary_warns _ (unary_warns hi))))) c

theorem assignment_warns (hi : inner.Warning) (c : Cursor) :
    (assignment inner).Ensures c fun e c' => c.Warns [.expression e] c' := by
  refine Ensures.bind ((pipe_warns hi c).mono fun target c₁ h₁ => Ensures.look_bind ?_)
  split
  · exact Ensures.bind (Ensures.discard_take fun c₂ ht => Ensures.bind ((hi.expression c₂).mono
      fun value c₃ h₃ => Ensures.pure (.node ((h₁.before (.take ht)).trans h₃) rfl)))
  · exact Ensures.pure h₁

/-- Every level notes the warnings of what it reads. -/
theorem level_warns (n : Nat) : (level n).Warning := by
  induction n with
  | zero => exact ⟨fun _ => Ensures.fail, fun _ => Ensures.fail⟩
  | succ n ih => exact ⟨assignment_warns ih, unary_warns ih⟩

end Grammar
end WqSource
