import WqSource.Grammar.Primary
import WqSource.Proofs.Alone.Block

/-!
# Copies of primaries

A primary is read again from a cut cursor, whatever the token behind it was. Whether a name is
one of a loop, or whether a value is returned, depends on that token; but if something is read
then, the token is not cut off.

## Main statements

* `group_copies`, `function_copies`, `conditional_copies`, `identifier_copies`, `control_copies`:
  the forms.
* `primary?_together`, `primary_copies`: all of them.
-/

namespace WqSource.Grammar
open WqSource.Parser

variable {n : Nat} {c : Cursor} {inner inner' : Inner} {t : Token}

/-! ## Functions -/

theorem param_copies : Copies n 1 param param c := by
  refine .choose ?_ ?_
  · intro c d h
    simp only [h.current]
  · split
    · next name hk => exact .goOn (by simp [Cursor.atEnd, hk]) fun _ _ => .pure
    · exact .stop

theorem params_copies : Copies n 1 params params c := by
  refine .look_bind (fun i d hi hd => looksAt_eq .closeBracket (by omega) hd) ?_
  split
  · exact .bind_right .pure fun _ _ _ => expect_pure_copies
  · have hseparated : Copies (1 + n) 1
        (separated param (atPunct .semicolon fun _ => pure ()) fun _ => false)
        (separated param (atPunct .semicolon fun _ => pure ()) fun _ => false) c :=
      .separated (fun _ => param_copies) Copies.looks_looksAt
        (fun _ => Copies.together_looksAt fun _ _ => .pure) fun _ _ _ _ _ => rfl
    exact .bind_right hseparated.lax fun _ _ _ => .bind_right .pure fun _ _ _ => expect_pure_copies

theorem function_copies (hi : inner.Copied inner') :
    Copies n 1 (function inner t) (function inner' t) c := by
  have hbody (ps : List Param) (c : Cursor) : Copies n 1
      (functionBody inner >>= fun body => spanFrom t.span.start >>= fun s =>
        Pure.pure (Expr.function s ps body))
      (functionBody inner' >>= fun body => spanFrom t.span.start >>= fun s =>
        Pure.pure (Expr.function s ps body)) c :=
    .bind_left (functionBody_copies hi) fun _ _ _ => .spanFrom_bind fun _ => .pure
  refine .look_bind (fun i d hi hd => looksAt_eq .openBracket (by omega) hd) ?_
  split
  · next hopen =>
    refine .discard_take_bind (Copies.ne_atEnd hopen) fun c₁ _ => ?_
    exact .lax (.bind_left params_copies fun ps c₂ _ => (hbody ps c₂).lax)
  · exact .bind_right .pure fun ps c₁ _ => hbody ps c₁

/-! ## Groups -/

theorem entry_copies (hi : inner.Copied inner') : Copies n 1 (entry inner) (entry inner') c := by
  refine .choose ?_ ?_
  · intro c d h
    simp only [h.current]
  · split
    · next key hk =>
      refine .goOn (by simp [Cursor.atEnd, hk]) fun c₁ _ => ?_
      exact .lax (.bind_left .expect fun _ c₂ _ =>
        .lax (.bind_left (hi.expression n c₂) fun _ _ _ => .pure))
    · exact .stop

/-- Where there are no line feeds, none are skipped. -/
theorem run_skipNewlines (hc : c.atNewline = false) : skipNewlines.run c = (.ok (), c) :=
  run_repeatTaking_stop (by simp [hc])

/-- Items behind an opening bracket, one at least. -/
theorem items_copies_two {α : Type} {close : Punct} {item item' : Parser α}
    (hitem : ∀ n c, Copies n 1 item item' c) (hclose : c.looksAt close = false)
    (hline : c.atNewline = false) :
    Copies n 2 (items close item) (items close item') c := by
  refine .bind_right skipNewlines_copies fun _ c₁ hc₁ => ?_
  rw [run_skipNewlines hline] at hc₁
  cases hc₁
  refine .look_bind (fun i d hi hd => looksAt_eq close (by omega) hd) ?_
  rw [hclose]
  have hseparated : Copies (1 + n) 1 (separated item separator (·.looksAt close))
      (separated item' separator (·.looksAt close)) c :=
    .separated (hitem _) looks_atSeparator
      (fun _ => together_atSeparator fun _ => restOfSeparator_copies)
      fun i c d hi hd => looksAt_eq close (by omega) hd
  exact .bind hseparated (fun _ _ _ => .bind_right .pure fun _ _ _ => expect_pure_copies)
    (Nat.le_refl _)

/-- Whether a group is a dict is seen from two tokens at most. -/
theorem startsDict_copies (hn : 1 ≤ n) (hsymbol : ∀ s, c.current.kind = .symbol s → 2 ≤ n) :
    Copies n 0 startsDict startsDict c := by
  refine .look_bind (fun i d hi hd => by rw [(hd.sees (by omega)).current]) ?_
  split
  · next s hk =>
    have hn := hsymbol s hk
    refine .bind_left (Ensures.peek fun kind hp => ?_) fun _ _ _ => .pure
    refine ⟨0, Nat.le_refl 0, .refl c, fun j d hj hd => ?_⟩
    obtain ⟨i, rfl⟩ : ∃ i, j = i + 2 := ⟨j - 2, by omega⟩
    rw [Nat.zero_add] at hd
    exact ⟨d, hd.peek hp, hd⟩
  · exact .pure

/-- To see whether a group is a dict, no token is taken. -/
theorem startsDict_keeps : startsDict.Ensures c fun _ c' => c' = c := by
  refine Ensures.look_bind ?_
  split
  · exact Ensures.bind (Ensures.peek fun _ _ => Ensures.pure rfl)
  · exact Ensures.pure rfl

theorem group_copies (hi : inner.Copied inner') :
    Copies n 1 (group inner t) (group inner' t) c := by
  refine .bind_right skipNewlines_copies fun _ c₁ _ => ?_
  refine .look_bind (fun i d hi hd => looksAt_eq .closeParen (by omega) hd) ?_
  split
  · next hclose =>
    exact .discard_take_bind (Copies.ne_atEnd hclose) fun _ _ => .spanFrom_bind fun _ => .pure
  · by_cases hsymbol : ∃ s, c₁.current.kind = .symbol s
    · -- The colon of a dict is seen, because the parenthesis behind all of it is taken.
      obtain ⟨s, hk⟩ := hsymbol
      have hclose : c₁.looksAt .closeParen = false := by simp [Cursor.looksAt, hk]
      have hline : c₁.atNewline = false := by simp [Cursor.atNewline, hk]
      refine .mono (g := 2) (.bind_right (startsDict_copies (by omega) fun _ _ => by omega)
        fun isDict c₂ hc₂ => ?_) (Nat.le_refl n) (Nat.le_succ 1)
      obtain rfl := startsDict_keeps _ _ hc₂
      split
      · exact .bind_left (items_copies_two (fun _ _ => entry_copies hi) hclose hline)
          fun _ _ _ => .spanFrom_bind fun _ => .pure
      · exact .bind_left (items_copies_two hi.expression hclose hline)
          fun _ _ _ => .spanFrom_bind fun _ => .pure
    · refine .bind_right (startsDict_copies (by omega) fun s hk => absurd ⟨s, hk⟩ hsymbol)
        fun isDict c₂ _ => ?_
      split
      · exact .bind_left (items_copies fun _ _ => entry_copies hi)
          fun _ _ _ => .spanFrom_bind fun _ => .pure
      · exact .bind_left (items_copies hi.expression) fun _ _ _ => .spanFrom_bind fun _ => .pure

/-! ## Control forms -/

theorem arms_copies (hi : inner.Copied inner') (hn : 1 ≤ n) :
    Copies n 1 (arms inner) (arms inner') c := by
  refine .bind_left (firstArm_copies hi hn) fun first c₁ _ => ?_
  refine .look_bind (fun i d hi hd => looksAt_eq .closeBracket (by omega) hd) ?_
  split
  · split
    · exact .pure
    · exact .fail
  · exact .lax (.bind_left .expect fun _ c₂ _ =>
      .lax (.bind_left (arm_copies hi hn) fun _ _ _ => .pure))

/-- A closing bracket behind the last arm, and the span through it. -/
theorem expect_spanFrom_copies {close : Punct} {expected : Expectation} {start : Position}
    {node : Span → Expr} :
    Copies n 1 (do expect close expected; return node (← spanFrom start) : Parser Expr)
      (do expect close expected; return node (← spanFrom start)) c :=
  .bind_left .expect fun _ _ _ => .spanFrom_bind fun _ => .pure

theorem conditional_copies (hi : inner.Copied inner') :
    Copies n 1 (conditional inner t) (conditional inner' t) c := by
  refine .look_bind (fun i d hi hd => looksAt_eq .dot (by omega) hd) ?_
  split
  · next hdot =>
    refine .discard_take_bind (Copies.ne_atEnd hdot) fun c₁ _ =>
      .lax (.bind_left .expect fun _ c₂ _ => ?_)
    refine .lax (.bind_left (head_copies hi) fun _ c₃ _ => ?_)
    exact .lax (.bind_right (arm_copies hi (by omega)).lax fun _ _ _ => expect_spanFrom_copies)
  · refine .bind_left .expect fun _ c₂ _ => ?_
    refine .lax (.bind_left (head_copies hi) fun _ c₃ _ => ?_)
    exact .lax (.bind_right (arms_copies hi (by omega)).lax fun _ _ _ => expect_spanFrom_copies)

theorem loop_copies {node : Span → Expr → Branch → Expr} (hi : inner.Copied inner')
    (hend : c.atEnd = false) : Copies n 1 (loop inner node t) (loop inner' node t) c := by
  refine .discard_take_bind hend fun c₁ _ => .lax (.bind_left (head_copies hi) fun _ c₂ _ => ?_)
  exact .lax (.bind_right (arm_copies hi (by omega)).lax fun _ _ _ => expect_spanFrom_copies)

theorem identifier_copies {name : String} (hi : inner.Copied inner') :
    Copies n 0 (identifier inner name t) (identifier inner' name t) c := by
  unfold identifier
  cases loopOfName? name with
  | none =>
    refine .look_any_bind ?_
    dsimp only
    split
    · exact .bind_left .note fun _ _ _ => .pure
    · exact .pure
  | some node =>
    refine .looksAt_bind (fun hopen => loop_copies hi (Copies.ne_atEnd hopen)) fun _ => ?_
    dsimp only
    split
    · exact .bind_left .note fun _ _ _ => .pure
    · exact .pure

theorem control_copies {word : ControlWord} (hi : inner.Copied inner') :
    Copies n 0 (control inner t word) (control inner' t word) c := by
  cases word with
  | returning =>
    cases hstart : c.current.kind.startsExpression with
    | true =>
      refine .lax (g := 1) (.look_bind (fun i d hi hd => ?_) ?_)
      · rw [(hd.sees (by omega)).current]
      · rw [hstart]
        exact .bind_left (.map (hi.expression n c)) fun _ _ _ => .spanFrom_bind fun _ => .pure
    | false =>
      refine .look_bind (fun i d _ hd => ?_) ?_
      · exact hd.congr (·.startsExpression) (.inr (by rw [hstart]; rfl))
      · rw [hstart]
        exact .bind_left .pure fun _ _ _ => .spanFrom_bind fun _ => .pure
  | breaking | continuing => exact .pure
  | asserting | trying =>
    exact .lax (.bind_left (hi.expression n c) fun _ _ _ => .spanFrom_bind fun _ => .pure)

/-! ## All of them -/

/-- What goes on behind the first token of a primary. -/
theorem primary?_together (hi : inner.Copied inner') :
    Together n 0 c (primary? inner c.current.kind) (primary? inner' c.current.kind) := by
  have hend (h : c.current.kind ≠ .endOfInput) : c.atEnd = false := by simpa [Cursor.atEnd] using h
  cases hk : c.current.kind with
  | punct p =>
    rw [hk] at hend
    cases p with
    | openBrace => exact .goOn (hend (by simp)) fun _ _ => (function_copies hi).lax
    | openParen => exact .goOn (hend (by simp)) fun _ _ => (group_copies hi).lax
    | dollar => exact .goOn (hend (by simp)) fun _ _ => (conditional_copies hi).lax
    | _ => exact .stop
  | identifier name => exact .goOn (hend (by simp [hk])) fun _ _ => identifier_copies hi
  | control word => exact .goOn (hend (by simp [hk])) fun _ _ => control_copies hi
  | newline | shebang | magic | endOfInput => exact .stop
  | _ => exact .goOn (hend (by simp [hk])) fun _ _ => .pure

theorem primary_copies (hi : inner.Copied inner') :
    Copies n 1 (primary inner) (primary inner') c :=
  .choose (fun c d h => by simp only [h.current]) (primary?_together hi)

end WqSource.Grammar
