import WqSource.Grammar.Block
import WqSource.Proofs.Alone.Cut

/-!
# Copies between brackets

Items and statements that a closing bracket ends are read again from a cut cursor if that bracket
is left, too. The bracket is what tells a separator behind the last item from one that another
item follows.

## Main definitions

* `Grammar.Inner.Copied`: what is asked of the parsers of expressions.

## Main statements

* `items_copies`, `functionBody_copies`, `arm_copies`, `firstArm_copies`, `head_copies`.
-/

namespace WqSource
open Grammar WqSource.Parser

variable {α : Type} {n : Nat} {c : Cursor} {inner inner' : Inner}

/-- What one reads, the other reads from a cut cursor. -/
structure Grammar.Inner.Copied (inner inner' : Inner) : Prop where
  expression : ∀ n c, Copies n 1 inner.expression inner'.expression c
  exponent : ∀ n c, Copies n 1 inner.exponent inner'.exponent c

namespace Cursor

theorem Sees.atNewline {d : Cursor} (h : c.Sees d) : d.atNewline = c.atNewline := by
  rw [Cursor.atNewline, h.current, Cursor.atNewline]

theorem Sees.atSeparator {d : Cursor} (h : c.Sees d) : d.atSeparator = c.atSeparator := by
  rw [Cursor.atSeparator, h.current, Cursor.atSeparator]

theorem Sees.looksAt {d : Cursor} (h : c.Sees d) (p : Punct) : d.looksAt p = c.looksAt p := by
  rw [Cursor.looksAt, h.current, Cursor.looksAt]

end Cursor

namespace Grammar

/-! ## Separators -/

theorem skipNewlines_copies : Copies n 0 skipNewlines skipNewlines c :=
  .skipWhile (fun _ _ h => h.atNewline) fun _ => Cursor.atEnd_of_atNewline

theorem skipSeparators_copies : Copies n 0 skipSeparators skipSeparators c :=
  .skipWhile (fun _ _ h => h.atSeparator) fun _ => Cursor.atEnd_of_atSeparator

theorem restOfSeparator_copies {t : Token} :
    Copies n 0 (restOfSeparator t) (restOfSeparator t) c := by
  unfold restOfSeparator
  split
  · refine .looksAt_bind (fun hsemi => ?_) fun _ => .pure
    exact .discard_take_bind (Copies.ne_atEnd hsemi) fun c₁ _ => skipNewlines_copies
  · exact skipNewlines_copies

theorem looks_atSeparator {goOn : Token → Parser α} :
    Looks fun c => if c.atSeparator then some goOn else none := by
  intro c d h
  simp only [h.atSeparator]

theorem looks_atNewline {goOn : Token → Parser α} :
    Looks fun c => if c.atNewline then some goOn else none := by
  intro c d h
  simp only [h.atNewline]

theorem together_atSeparator {goOn : Token → Parser α}
    (h : ∀ c₁, Copies n 0 (goOn c.current) (goOn c.current) c₁) :
    Together n 0 c (if c.atSeparator then some goOn else none)
      (if c.atSeparator then some goOn else none) := by
  split
  · next hs => exact .goOn (Cursor.atEnd_of_atSeparator hs) fun c₁ _ => h c₁
  · exact .stop

theorem together_atNewline {goOn : Token → Parser α}
    (h : ∀ c₁, Copies n 0 (goOn c.current) (goOn c.current) c₁) :
    Together n 0 c (if c.atNewline then some goOn else none)
      (if c.atNewline then some goOn else none) := by
  split
  · next hn => exact .goOn (Cursor.atEnd_of_atNewline hn) fun c₁ _ => h c₁
  · exact .stop

/-- The token behind a sequence is left, too. -/
theorem looksAt_eq {i : Nat} {d : Cursor} (p : Punct) (hi : 1 ≤ i) (h : c.Cut i d) :
    d.looksAt p = c.looksAt p :=
  (h.sees hi).looksAt p

/-! ## Items -/

/-- A closing bracket behind what has been read. -/
theorem expect_pure_copies {close : Punct} {expected : Expectation} {a : α} :
    Copies n 1 (do expect close expected; return a : Parser α)
      (do expect close expected; return a) c :=
  .bind_left .expect fun _ _ _ => .pure

theorem items_copies {close : Punct} {item item' : Parser α}
    (hitem : ∀ n c, Copies n 1 item item' c) :
    Copies n 1 (items close item) (items close item') c := by
  refine .bind_right skipNewlines_copies fun _ c₁ _ => ?_
  refine .look_bind (fun i d hi hd => looksAt_eq close (by omega) hd) ?_
  split
  · exact .bind_right .pure fun _ _ _ => expect_pure_copies
  · have hseparated : Copies (1 + n) 1 (separated item separator (·.looksAt close))
        (separated item' separator (·.looksAt close)) c₁ :=
      .separated (hitem _) looks_atSeparator
        (fun _ => together_atSeparator fun _ => restOfSeparator_copies)
        fun i c d hi hd => looksAt_eq close (by omega) hd
    exact .bind_right hseparated.lax fun _ _ _ =>
      .bind_right .pure fun _ _ _ => expect_pure_copies

/-! ## Statements -/

theorem statement_copies (hi : inner.Copied inner') :
    Copies n 1 (statement inner) (statement inner') c := by
  refine .look_bind (fun i d hi hd => by rw [(hd.sees (by omega)).current]) ?_
  split
  · next payload hk =>
    exact .take_bind (by simp [Cursor.atEnd, hk]) fun _ _ => .pure
  · exact .bind_left (hi.expression n c) fun _ _ _ => .pure

theorem statements_copies {sep : Cursor → Option (Token → Parser Unit)} {stop : Cursor → Bool}
    (hi : inner.Copied inner') (hlooks : Looks sep) (hsep : ∀ c, Together n 0 c (sep c) (sep c))
    (hstop : ∀ i c d, n ≤ i → Cursor.Cut i c d → stop d = stop c) :
    Copies n 1 (statements inner sep stop) (statements inner' sep stop) c :=
  .bind_left (.separated (fun _ => statement_copies hi) hlooks hsep hstop) fun _ _ _ => .pure

theorem functionBody_copies (hi : inner.Copied inner') :
    Copies n 1 (functionBody inner) (functionBody inner') c := by
  refine .bind_right skipSeparators_copies fun _ c₁ _ => ?_
  refine .look_bind (fun i d hi hd => looksAt_eq .closeBrace (by omega) hd) ?_
  split
  · exact .bind_right .pure fun _ _ _ => expect_pure_copies
  · have hstatements : Copies (1 + n) 1
        (statements inner (fun c => if c.atSeparator then some fun _ => skipSeparators else none)
          (·.looksAt .closeBrace))
        (statements inner' (fun c => if c.atSeparator then some fun _ => skipSeparators else none)
          (·.looksAt .closeBrace)) c₁ :=
      statements_copies hi looks_atSeparator
        (fun _ => together_atSeparator fun _ => skipSeparators_copies)
        fun i c d hi hd => looksAt_eq .closeBrace (by omega) hd
    exact .bind_right (Copies.map hstatements).lax
      fun _ _ _ => expect_pure_copies

theorem arm_copies (hi : inner.Copied inner') (hn : 1 ≤ n) :
    Copies n 1 (arm inner) (arm inner') c :=
  .bind_right skipNewlines_copies fun _ _ _ =>
    statements_copies hi looks_atSeparator
      (fun _ => together_atSeparator fun _ => restOfSeparator_copies)
        fun i c d hi hd => looksAt_eq .closeBracket (by omega) hd

theorem firstArm_copies (hi : inner.Copied inner') (hn : 1 ≤ n) :
    Copies n 1 (firstArm inner) (firstArm inner') c :=
  .bind_right skipNewlines_copies fun _ _ _ =>
    statements_copies hi looks_atNewline (fun _ => together_atNewline fun _ => .pure)
      fun i c d hi hd => by
        rw [looksAt_eq .closeBracket (by omega) hd, looksAt_eq .semicolon (by omega) hd]

theorem head_copies (hi : inner.Copied inner') : Copies n 1 (head inner) (head inner') c := by
  refine .bind_right skipNewlines_copies fun _ _ _ => .bind_left (hi.expression n _) fun e c₁ _ => ?_
  have hlooks : Looks fun c => if c.atNewline then some fun _ => Pure.pure ()
      else if c.looksAt .semicolon then some fun _ => skipNewlines else none := by
    intro c d h
    simp only [h.atNewline, h.looksAt]
  refine .lax (g := 1) (.bind_left (.choose hlooks ?_) fun _ _ _ => .pure)
  split
  · next hn => exact .goOn (Cursor.atEnd_of_atNewline hn) fun _ _ => .pure
  · exact Copies.together_looksAt fun _ _ => skipNewlines_copies

end Grammar
end WqSource
