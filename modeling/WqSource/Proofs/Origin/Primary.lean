import WqSource.Proofs.Origin.Block
import WqSource.Proofs.Spans.Primary

/-!
# Where the parts of primaries come from

The parts of a primary were read between its brackets, or behind the word in front of them. The
arms of a conditional with one semicolon too few were read as one, but their statements are the
same.

## Main statements

* `primary?_parts`: the parts of every form.
* `primary_stands`: every primary.
-/

namespace WqSource.Grammar
open WqSource.Parser

variable {n : Nat} {inner : Inner} {c c₁ : Cursor} {t : Token}

/-- Where an operator, separator or bracket is expected, only that is passed. -/
theorem expect_finds {p : Punct} {expected : Expectation} :
    (expect p expected).Ensures c fun _ c' => c.Finds [] c' :=
  (Copies.expect (n := 0)).finds

/-! ## Functions and groups -/

theorem param_finds (hc : c.Placed n) : param.Ensures c fun p c' => c.Finds [.param p] c' := by
  refine Ensures.choose fun goOn c₁ hn ht => ?_
  split at hn
  · next name hk =>
    cases hn
    exact Ensures.pure (.single (hc.covers_take (by simp [Cursor.atEnd, hk]) ht rfl (by simp))
      fun _ hp => absurd hp List.not_mem_nil)
  · cases hn

theorem params_finds (hc : c.Placed n) :
    params.Ensures c fun ps c' => c.Finds (ps.map .param) c' := by
  refine Ensures.look_bind ?_
  have hclose (ps : List Param) {c₂ : Cursor} (h₂ : c.Finds (ps.map .param) c₂) :
      (expect .closeBracket .parameterEnd >>= fun _ => Pure.pure ps).Ensures c₂ fun ps c' =>
        c.Finds (ps.map .param) c' :=
    Ensures.bind (expect_finds.mono fun _ c₃ h₃ => Ensures.pure (h₂.before h₃))
  split
  · exact Ensures.bind (Ensures.pure (hclose [] .refl))
  · refine Ensures.bind ((separated_finds (f := fun p => [.param p]) (fun c hc => param_finds hc)
      (fun _ => Copies.together_looksAt fun _ _ => .pure) hc).mono ?_)
    rintro ⟨first, rest⟩ c₂ h₂
    refine Ensures.bind (Ensures.pure (hclose _ ?_))
    rwa [List.map_eq_flatMap]

theorem function_parts (hi : inner.Traced n) (hc : c.Placed n) :
    (function inner t).Ensures c fun e c' => c.Finds e.parts c' := by
  refine Ensures.look_bind ?_
  have hbody (ps : List Param) {c₂ : Cursor} (h₂ : c.Finds (ps.map .param) c₂) :
      (functionBody inner >>= fun body => spanFrom t.span.start >>= fun s =>
        Pure.pure (Expr.function s ps body)).Ensures c₂ fun e c' => c.Finds e.parts c' :=
    Ensures.bind ((functionBody_finds hi (h₂.placed hc)).mono fun body c₃ h₃ =>
      Ensures.look_bind (Ensures.pure (h₂.trans h₃)))
  split
  · next hopen =>
    refine Ensures.bind (Ensures.discard_take fun c₂ ht => ?_)
    have h₂ := Cursor.Finds.take (ne_atEnd_of_looksAt hopen) ht
    exact Ensures.bind ((params_finds (h₂.placed hc)).mono fun ps c₃ h₃ => hbody ps (h₂.behind h₃))
  · exact Ensures.bind (Ensures.pure (hbody [] .refl))

theorem entry_finds (hi : inner.Traced n) (hc : c.Placed n) :
    (entry inner).Ensures c fun e c' => c.Finds e.nodes c' := by
  refine Ensures.choose fun goOn c₁ hn ht => ?_
  split at hn
  · next key hk =>
    cases hn
    have hkey : c.Finds [.key c.current.span] c₁ :=
      .single (hc.covers_take (by simp [Cursor.atEnd, hk]) ht rfl (by simp))
        fun _ hp => absurd hp List.not_mem_nil
    refine Ensures.bind (expect_finds.mono fun _ c₂ h₂ => ?_)
    have h₂ := hkey.before h₂
    exact Ensures.bind ((hi.finds (h₂.placed hc)).mono fun value c₃ h₃ =>
      Ensures.pure (h₂.trans h₃))
  · cases hn

theorem startsDict_finds : startsDict.Ensures c fun _ c' => c.Finds [] c' :=
  startsDict_keeps.mono fun _ _ h => h ▸ .refl

theorem group_parts (hi : inner.Traced n) (hc : c.Placed n) :
    (group inner t).Ensures c fun e c' => c.Finds e.parts c' := by
  refine Ensures.bind ((skipNewlines_copies (n := 0)).finds.mono fun _ c₁ h₁ =>
    Ensures.look_bind ?_)
  split
  · next hclose =>
    refine Ensures.bind (Ensures.discard_take fun c₂ ht => Ensures.look_bind (Ensures.pure ?_))
    exact h₁.before (.take (ne_atEnd_of_looksAt hclose) ht)
  · refine Ensures.bind (startsDict_finds.mono fun isDict c₂ h₂ => ?_)
    have h₂ := h₁.before h₂
    split
    · exact Ensures.bind ((items_finds (fun c hc => entry_finds hi hc) (h₂.placed hc)).mono
        fun es c₃ h₃ => Ensures.look_bind (Ensures.pure (h₂.behind h₃)))
    · refine Ensures.bind ((items_finds (fun c hc => hi.finds hc) (h₂.placed hc)).mono
        fun es c₃ h₃ => Ensures.look_bind (Ensures.pure (h₂.behind ?_)))
      rwa [Expr.parts, List.map_eq_flatMap]

/-! ## Control forms -/

/-- A branch of more than one statement is divided into two. -/
theorem FindsBranch.splitLast {b : Branch} {both : Branch × Branch} (h : FindsBranch c b c₁)
    (hsplit : b.splitLast? = some both) : c.Finds [.branch both.1, .branch both.2] c₁ := by
  obtain ⟨first, rest, rfl, hall⟩ := h
  unfold Branch.splitLast? at hsplit
  cases rest with
  | nil => cases hsplit
  | cons second rest =>
    cases hsplit
    have hdivide : first :: second :: rest =
        (first :: (second :: rest).dropLast) ++ [(second :: rest).getLast (by simp)] := by
      rw [List.cons_append, List.dropLast_append_getLast]
    have hnodes (ss : List Statement) (hss : ∀ s ∈ ss, s ∈ first :: second :: rest) :
        ∀ x ∈ ss.map Node.statement, x.From c := by
      intro x hx
      obtain ⟨s, hs, rfl⟩ := List.mem_map.1 hx
      exact hall.nodes _ (List.mem_map_of_mem (hss s hs))
    have hfirst : c.Finds [.branch (.ofStatements first (second :: rest).dropLast)] c₁ :=
      .branch ⟨hnodes _ fun s hs => by rw [hdivide]; exact List.mem_append_left _ hs, hall.advances⟩
    have hlast : c.Finds [.branch (.ofStatements ((second :: rest).getLast (by simp)) [])] c₁ :=
      .branch ⟨hnodes _ fun s hs => by rw [hdivide]; exact List.mem_append_right _ hs, hall.advances⟩
    refine ⟨fun x hx => ?_, hall.advances⟩
    rcases List.mem_cons.1 hx with rfl | hx
    · exact hfirst.nodes _ (List.mem_singleton_self _)
    · exact hlast.nodes x hx

theorem arms_finds (hi : inner.Traced n) (hc : c.Placed n) :
    (arms inner).Ensures c fun both c' => c.Finds [.branch both.1, .branch both.2] c' := by
  refine Ensures.bind ((firstArm_finds hi hc).mono fun first c₁ h₁ => Ensures.look_bind ?_)
  split
  · split
    · next both hsplit => exact Ensures.pure (h₁.splitLast hsplit)
    · exact Ensures.fail
  · refine Ensures.bind (expect_finds.mono fun _ c₂ h₂ => ?_)
    have h₂ := h₁.finds.before h₂
    exact Ensures.bind ((arm_finds hi (h₂.placed hc)).mono fun second c₃ h₃ =>
      Ensures.pure (h₂.trans h₃))

theorem conditional_parts (hi : inner.Traced n) (hc : c.Placed n) :
    (conditional inner t).Ensures c fun e c' => c.Finds e.parts c' := by
  refine Ensures.look_bind ?_
  split
  · next hdot =>
    refine Ensures.bind (Ensures.discard_take fun c₁ ht => ?_)
    have h₁ := Cursor.Finds.take (ne_atEnd_of_looksAt hdot) ht
    refine Ensures.bind (expect_finds.mono fun _ c₂ h₂ => ?_)
    have h₂ := h₁.before h₂
    refine Ensures.bind ((head_finds hi (h₂.placed hc)).mono fun condition c₃ h₃ => ?_)
    have h₃ := h₂.behind h₃
    refine Ensures.bind ((arm_finds hi (h₃.placed hc)).mono fun arm c₄ h₄ => ?_)
    exact Ensures.bind (expect_finds.mono fun _ c₅ h₅ =>
      Ensures.look_bind (Ensures.pure ((h₃.trans h₄).before h₅)))
  · refine Ensures.bind (expect_finds.mono fun _ c₁ h₁ => ?_)
    refine Ensures.bind ((head_finds hi (h₁.placed hc)).mono fun condition c₂ h₂ => ?_)
    have h₂ := h₁.behind h₂
    refine Ensures.bind ((arms_finds hi (h₂.placed hc)).mono ?_)
    rintro ⟨thenArm, elseArm⟩ c₃ h₃
    exact Ensures.bind (expect_finds.mono fun _ c₄ h₄ =>
      Ensures.look_bind (Ensures.pure ((h₂.trans h₃).before h₄)))

theorem loop_parts {node : Span → Expr → Branch → Expr} (hi : inner.Traced n) (hc : c.Placed n)
    (hopen : c.looksAt .openBracket = true)
    (hnode : ∀ s e b, (node s e b).parts = [.expression e, .branch b]) :
    (loop inner node t).Ensures c fun e c' => c.Finds e.parts c' := by
  refine Ensures.bind (Ensures.discard_take fun c₁ ht => ?_)
  have h₁ := Cursor.Finds.take (ne_atEnd_of_looksAt hopen) ht
  refine Ensures.bind ((head_finds hi (h₁.placed hc)).mono fun condition c₂ h₂ => ?_)
  have h₂ := h₁.behind h₂
  refine Ensures.bind ((arm_finds hi (h₂.placed hc)).mono fun body c₃ h₃ => ?_)
  refine Ensures.bind (expect_finds.mono fun _ c₄ h₄ =>
    Ensures.look_bind (Ensures.pure ?_))
  rw [hnode]
  exact (h₂.trans h₃).before h₄

theorem identifier_parts {name : String} (hi : inner.Traced n) (hc : c.Placed n) :
    (identifier inner name t).Ensures c fun e c' => c.Finds e.parts c' := by
  refine Ensures.look_bind ?_
  split
  · next node hname hopen =>
    refine loop_parts hi hc hopen fun s e b => ?_
    unfold loopOfName? at hname
    split at hname <;> cases hname <;> rfl
  · split
    · exact Ensures.bind (Ensures.note (Ensures.pure ⟨by simp [Expr.parts], 0, .note _ (.refl c)⟩))
    · exact Ensures.pure .refl

theorem control_parts {word : ControlWord} (hi : inner.Traced n) (hc : c.Placed n) :
    (control inner t word).Ensures c fun e c' => c.Finds e.parts c' := by
  cases word with
  | returning =>
    refine Ensures.look_bind ?_
    split
    · exact Ensures.bind (Ensures.map ((hi.finds hc).mono fun value c₁ h₁ =>
        Ensures.look_bind (Ensures.pure h₁)))
    · exact Ensures.bind (Ensures.pure (Ensures.look_bind (Ensures.pure .refl)))
  | breaking | continuing => exact Ensures.pure .refl
  | asserting | trying =>
    exact Ensures.bind ((hi.finds hc).mono fun e c₁ h₁ => Ensures.look_bind (Ensures.pure h₁))

/-! ## All of them -/

/-- The parts of a primary were read behind its first token. -/
theorem primary?_parts {goOn : Token → Parser Expr} (hi : inner.Traced n) (hc : c.Placed n)
    {k : Token.Kind} (hs : primary? inner k = some goOn) :
    (goOn t).Ensures c fun e c' => c.Finds e.parts c' := by
  unfold primary? at hs
  split at hs <;> cases hs
  case h_9 => exact identifier_parts hi hc
  case h_11 => exact function_parts hi hc
  case h_12 => exact group_parts hi hc
  case h_13 => exact conditional_parts hi hc
  case h_14 => exact control_parts hi hc
  all_goals exact Ensures.pure .refl

theorem primary_stands (hi : inner.Traced n) (hc : c.Placed n) :
    (primary inner).Ensures c c.Stands := by
  have hparts : (primary inner).Ensures c fun e _ => ∀ p ∈ e.parts, p.From c := by
    refine Ensures.choose fun goOn c₁ hn ht => ?_
    obtain ⟨h₁, -⟩ := (primary?_together (n := 0) (c := c) hi.copied).finds hn ht
    refine (primary?_parts hi (h₁.placed hc) hn).mono fun e c' h => (h₁.behind h).nodes
  have halone := (primary_copies (c := c) hi.copied).alone fun _ _ h => assignment_of_primary h
  refine (((primary_yields hi.spanned hc).and halone).and hparts).mono ?_
  rintro e c' ⟨⟨hyields, halone⟩, hparts⟩
  exact .of_yields hyields halone hparts

end WqSource.Grammar
