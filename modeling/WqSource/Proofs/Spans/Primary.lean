import WqSource.Grammar.Primary
import WqSource.Proofs.Spans.Block

/-!
# Spans of primaries

A primary is a token, or reaches from its first token through its closing bracket or its last
part. A conditional with one semicolon too few takes its second arm from the end of the first
one; both get their spans anew.

## Main statements

* `primary_yields`: every primary is all that is read.
-/

namespace WqSource.Grammar
open WqSource.Parser

variable {n : Nat} {inner : Inner} {c c₁ : Cursor}

theorem ne_atEnd_of_kind {k : Token.Kind} (hk : c.current.kind = k) (h : k ≠ .endOfInput) :
    c.atEnd = false := by
  rw [Cursor.atEnd, hk]
  exact beq_eq_false_iff_ne.2 h

theorem ne_atEnd_of_looksAt {p : Punct} (hk : c.looksAt p = true) : c.atEnd = false := by
  refine ne_atEnd_of_kind (k := .punct p) ?_ (by simp)
  simpa [Cursor.looksAt] using hk

/-! ## Functions -/

theorem param_lays (hc : c.Placed n) :
    param.Ensures c fun p c' => c.Lays n [.param p] c' := by
  refine Ensures.choose fun goOn c₁ hn ht => ?_
  split at hn
  · next name hk =>
    cases hn
    obtain ⟨hplaced, hlast⟩ := hc.take ht
    have hlt := hc.nonempty (ne_atEnd_of_kind hk (by simp))
    refine Ensures.pure ⟨.single (Node.nested_of_laid hlt (Nat.le_of_lt hlt) (by simp)) hc.behind
      ?_, hplaced⟩
    rw [hlast]
    exact Nat.le_refl _
  · cases hn

theorem params_lays (hc : c.Placed n) :
    params.Ensures c fun ps c' => c.Lays n (ps.map .param) c' := by
  refine Ensures.look_bind ?_
  have hclose (ps : List Param) {c₂ : Cursor} (h₂ : c.Lays n (ps.map .param) c₂) :
      (expect .closeBracket .parameterEnd >>= fun _ => Pure.pure ps).Ensures c₂ fun ps c' =>
        c.Lays n (ps.map .param) c' :=
    Ensures.bind (((expect .closeBracket .parameterEnd).lays h₂.placed).mono fun _ c₃ h₃ =>
      Ensures.pure (h₂.before h₃))
  split
  · exact Ensures.bind (Ensures.pure (hclose [] (.refl hc)))
  · refine Ensures.bind ((separated_lays (f := fun p => [.param p]) (fun c hc => param_lays hc)
      hc).mono ?_)
    rintro ⟨first, rest⟩ c₂ h₂
    refine Ensures.bind (Ensures.pure (hclose _ ?_))
    rwa [List.map_eq_flatMap]

theorem function_yields (hi : inner.Spanned n) (hc : c.Placed n)
    (ht : c.take = (.ok c.current, c₁)) (hend : c.atEnd = false) :
    (function inner c.current).Ensures c₁ fun e c' => c.Yields n (.expression e) c' := by
  have hc₁ := (hc.take ht).1
  refine Ensures.look_bind ?_
  have hbody (ps : List Param) {c₂ : Cursor} (h₂ : c₁.Lays n (ps.map .param) c₂) :
      (functionBody inner >>= fun body => spanFrom c.current.span.start >>= fun s =>
        Pure.pure (Expr.function s ps body)).Ensures c₂ fun e c' =>
          c.Yields n (.expression e) c' :=
    Ensures.bind ((functionBody_lays hi h₂.placed).mono fun body c₃ h₃ => Ensures.look_bind
      (Ensures.pure (hc.yields ht hend (h₂.trans h₃) rfl)))
  split
  · refine Ensures.bind (Ensures.discard_take fun c₂ ht₁ => ?_)
    have h₂ := hc₁.lays_take ht₁
    exact Ensures.bind ((params_lays h₂.placed).mono fun ps c₃ h₃ => hbody ps (h₂.behind h₃))
  · exact Ensures.bind (Ensures.pure (hbody [] (.refl hc₁)))

/-! ## Groups -/

theorem entry_lays (hi : inner.Spanned n) (hc : c.Placed n) :
    (entry inner).Ensures c fun e c' => c.Lays n e.nodes c' := by
  refine Ensures.choose fun goOn c₁ hn ht => ?_
  split at hn
  · next key hk =>
    cases hn
    obtain ⟨hplaced, hlast⟩ := hc.take ht
    have hlt := hc.nonempty (ne_atEnd_of_kind hk (by simp))
    have hkey : c.Lays n [.key c.current.span] c₁ := by
      refine ⟨.single (Node.nested_of_laid hlt (Nat.le_of_lt hlt) (by simp)) hc.behind ?_, hplaced⟩
      rw [hlast]
      exact Nat.le_refl _
    refine Ensures.bind (((expect .colon .entryColon).lays hplaced).mono fun _ c₂ h₂ => ?_)
    refine Ensures.bind ((hi.lays h₂.placed).mono fun value c₃ h₃ => Ensures.pure ?_)
    exact hkey.trans (h₂.behind h₃)
  · cases hn

theorem group_yields (hi : inner.Spanned n) (hc : c.Placed n)
    (ht : c.take = (.ok c.current, c₁)) (hend : c.atEnd = false) :
    (group inner c.current).Ensures c₁ fun e c' => c.Yields n (.expression e) c' := by
  have hc₁ := (hc.take ht).1
  refine Ensures.bind ((skipNewlines.lays hc₁).mono fun _ c₂ h₂ => Ensures.look_bind ?_)
  split
  · refine Ensures.bind (Ensures.discard_take fun c₃ ht₂ => Ensures.look_bind (Ensures.pure ?_))
    exact hc.yields ht hend (h₂.before (h₂.placed.lays_take ht₂)) rfl
  · refine Ensures.bind ((startsDict.lays h₂.placed).mono fun isDict c₃ h₃ => ?_)
    have h₃ := h₂.before h₃
    split
    · refine Ensures.bind ((items_lays (fun c hc => entry_lays hi hc) h₃.placed).mono
        fun es c₄ h₄ => Ensures.look_bind (Ensures.pure ?_))
      exact hc.yields ht hend (h₃.behind h₄) rfl
    · refine Ensures.bind ((items_lays (fun c hc => hi.lays hc) h₃.placed).mono
        fun es c₄ h₄ => Ensures.look_bind (Ensures.pure ?_))
      refine hc.yields ht hend (h₃.behind ?_) rfl
      rwa [Expr.parts, List.map_eq_flatMap]

/-! ## Control forms -/

/-- A branch of more than one statement is divided into two in a row. -/
theorem LaysBranch.splitLast {b : Branch} {both : Branch × Branch} (h : LaysBranch n c b c₁)
    (hsplit : b.splitLast? = some both) :
    c.Lays n [.branch both.1, .branch both.2] c₁ := by
  obtain ⟨first, rest, rfl, hrow, hplaced⟩ := h
  unfold Branch.splitLast? at hsplit
  cases rest with
  | nil => cases hsplit
  | cons second rest =>
    cases hsplit
    have hdivide : (first :: second :: rest).map Node.statement =
        (first :: (second :: rest).dropLast).map .statement ++
          [(second :: rest).getLast (by simp)].map .statement := by
      rw [← List.map_append, List.cons_append, List.dropLast_append_getLast]
    rw [hdivide] at hrow
    obtain ⟨b, hfirst, hlast⟩ := hrow.of_append
    exact ⟨hfirst.branch.append hlast.branch, hplaced⟩

theorem arms_lays (hi : inner.Spanned n) (hc : c.Placed n) :
    (arms inner).Ensures c fun both c' => c.Lays n [.branch both.1, .branch both.2] c' := by
  refine Ensures.bind ((firstArm_lays hi hc).mono fun first c₁ h₁ => Ensures.look_bind ?_)
  split
  · split
    · next both hsplit => exact Ensures.pure (h₁.splitLast hsplit)
    · exact Ensures.fail
  · have h₁ := h₁.lays
    refine Ensures.bind (((expect .semicolon .armSeparator).lays h₁.placed).mono fun _ c₂ h₂ => ?_)
    refine Ensures.bind ((arm_lays hi h₂.placed).mono fun second c₃ h₃ => Ensures.pure ?_)
    exact h₁.trans (h₂.behind h₃)

theorem conditional_yields (hi : inner.Spanned n) (hc : c.Placed n)
    (ht : c.take = (.ok c.current, c₁)) (hend : c.atEnd = false) :
    (conditional inner c.current).Ensures c₁ fun e c' => c.Yields n (.expression e) c' := by
  have hc₁ := (hc.take ht).1
  refine Ensures.look_bind ?_
  split
  · refine Ensures.bind (Ensures.discard_take fun c₂ ht₁ => ?_)
    have h₂ := hc₁.lays_take ht₁
    refine Ensures.bind (((expect .openBracket .guardBracket).lays h₂.placed).mono
      fun _ c₃ h₃ => ?_)
    refine Ensures.bind ((head_lays hi h₃.placed).mono fun condition c₄ h₄ => ?_)
    refine Ensures.bind ((arm_lays hi h₄.placed).mono fun arm c₅ h₅ => ?_)
    refine Ensures.bind (((expect .closeBracket .conditionalEnd).lays h₅.placed).mono
      fun _ c₆ h₆ => Ensures.look_bind (Ensures.pure ?_))
    have hparts := h₂.behind (h₃.behind (h₄.trans h₅))
    exact hc.yields ht hend (hparts.before h₆) rfl
  · refine Ensures.bind (((expect .openBracket .conditionalBracket).lays hc₁).mono
      fun _ c₂ h₂ => ?_)
    refine Ensures.bind ((head_lays hi h₂.placed).mono fun condition c₃ h₃ => ?_)
    refine Ensures.bind ((arms_lays hi h₃.placed).mono ?_)
    rintro ⟨thenArm, elseArm⟩ c₄ h₄
    refine Ensures.bind (((expect .closeBracket .conditionalEnd).lays h₄.placed).mono
      fun _ c₅ h₅ => Ensures.look_bind (Ensures.pure ?_))
    have hparts := h₂.behind (h₃.trans h₄)
    exact hc.yields ht hend (hparts.before h₅) rfl

theorem loop_yields {node : Span → Expr → Branch → Expr} (hi : inner.Spanned n)
    (hc : c.Placed n) (ht : c.take = (.ok c.current, c₁)) (hend : c.atEnd = false)
    (hnode : ∀ s e b, (node s e b).span = s ∧
      (node s e b).parts = [.expression e, .branch b]) :
    (loop inner node c.current).Ensures c₁ fun e c' => c.Yields n (.expression e) c' := by
  have hc₁ := (hc.take ht).1
  refine Ensures.bind (Ensures.discard_take fun c₂ ht₁ => ?_)
  have h₂ := hc₁.lays_take ht₁
  refine Ensures.bind ((head_lays hi h₂.placed).mono fun condition c₃ h₃ => ?_)
  refine Ensures.bind ((arm_lays hi h₃.placed).mono fun body c₄ h₄ => ?_)
  refine Ensures.bind (((expect .closeBracket .loopEnd).lays h₄.placed).mono
    fun _ c₅ h₅ => Ensures.look_bind (Ensures.pure ?_))
  refine hc.yields ht hend ?_ (hnode ..).1
  rw [(hnode ..).2]
  exact (h₂.behind (h₃.trans h₄)).before h₅

theorem identifier_yields {name : String} (hi : inner.Spanned n) (hc : c.Placed n)
    (ht : c.take = (.ok c.current, c₁)) (hend : c.atEnd = false) :
    (identifier inner name c.current).Ensures c₁ fun e c' => c.Yields n (.expression e) c' := by
  refine Ensures.look_bind ?_
  split
  · next node hname _ =>
    refine loop_yields hi hc ht hend fun s e b => ?_
    unfold loopOfName? at hname
    split at hname <;> cases hname <;> exact ⟨rfl, rfl⟩
  · have hname := hc.yields_token (e := .name c.current.span name false) ht hend rfl rfl
    split
    · refine Ensures.bind (Ensures.note (Ensures.pure ?_))
      exact ⟨hname.start, hname.stop, hname.nested, hname.placed.note _⟩
    · exact Ensures.pure hname

theorem control_yields {word : ControlWord} (hi : inner.Spanned n) (hc : c.Placed n)
    (ht : c.take = (.ok c.current, c₁)) (hend : c.atEnd = false) :
    (control inner c.current word).Ensures c₁ fun e c' => c.Yields n (.expression e) c' := by
  have hc₁ := (hc.take ht).1
  cases word with
  | returning =>
    refine Ensures.look_bind ?_
    split
    · refine Ensures.bind (Ensures.map ((hi.lays hc₁).mono fun value c₂ h₂ =>
        Ensures.look_bind (Ensures.pure ?_)))
      exact hc.yields ht hend h₂ rfl
    · refine Ensures.bind (Ensures.pure (Ensures.look_bind (Ensures.pure ?_)))
      exact hc.yields ht hend (.refl hc₁) rfl
  | breaking | continuing => exact Ensures.pure (hc.yields_token ht hend rfl rfl)
  | asserting | trying =>
    refine Ensures.bind ((hi.lays hc₁).mono fun e c₂ h₂ => Ensures.look_bind (Ensures.pure ?_))
    exact hc.yields ht hend h₂ rfl

/-! ## All of them -/

/-- What goes on behind the first token of a primary yields it. -/
theorem primary?_yields {goOn : Token → Parser Expr} (hi : inner.Spanned n) (hc : c.Placed n)
    (ht : c.take = (.ok c.current, c₁)) (hs : primary? inner c.current.kind = some goOn) :
    (goOn c.current).Ensures c₁ fun e c' => c.Yields n (.expression e) c' := by
  have hend : c.atEnd = false := by
    refine ne_atEnd_of_kind rfl fun hk => ?_
    rw [hk] at hs
    cases hs
  unfold primary? at hs
  split at hs <;> cases hs
  case h_9 => exact identifier_yields hi hc ht hend
  case h_11 => exact function_yields hi hc ht hend
  case h_12 => exact group_yields hi hc ht hend
  case h_13 => exact conditional_yields hi hc ht hend
  case h_14 => exact control_yields hi hc ht hend
  all_goals exact Ensures.pure (hc.yields_token ht hend rfl rfl)

theorem primary_yields (hi : inner.Spanned n) (hc : c.Placed n) :
    (primary inner).Ensures c fun e c' => c.Yields n (.expression e) c' :=
  Ensures.choose fun _ _ hs ht => primary?_yields hi hc ht hs

end WqSource.Grammar
