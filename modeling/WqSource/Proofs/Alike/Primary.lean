import WqSource.Proofs.Alike.Block
import WqSource.Proofs.Sound.Primary

/-!
# Two runs of primaries

Two runs of a form from alike cursors give trees that differ in their places only, and come to
alike cursors.

## Main statements

* `group_same`, `conditional_same`, `function_same`, `identifier_same`, `control_same`: the forms.
* `primary?_same`, `primary_same`: all of them.
-/

namespace WqSource.Grammar
open WqSource.Parser

variable {α β : Type} {m : Comparison} {d : Nat} {c c' : Cursor} {inner : Inner} {t t' : Token}

/-! ## Functions -/

theorem param_same (h : c.Alike m d c') : Same m Param.erase d (param.run c) (param.run c') := by
  refine .choose_of_level h (fun c hc => ?_) fun hlevel => ?_
  · split
    · next hname => simp [hname, Token.Kind.endsLine] at hc
    · rfl
  · rw [← hlevel.kind]
    split
    · next hname =>
      refine .goOn hlevel fun c₁ c₁' h₁ => .pure rfl ?_
      rw [hname, h.here] at h₁
      exact h₁
    · exact .stop

theorem params_same (h : c.Alike m (d + 1) c') :
    Same m (List.map Param.erase) d (params.run c) (params.run c') := by
  refine .look_bind (h.looksAt .closeBracket) ?_
  split
  · exact .bind (.pure rfl h) fun _ _ _ _ ha h => expect_pure_same rfl ha h
  · exact .bind (.separated h (fun _ _ => param_same)
      (fun _ _ h => continues_looksAt h fun _ _ _ h₁ => .pure rfl h₁) fun _ _ _ => rfl)
      fun _ _ _ _ has h => .bind (f := List.map Param.erase) (.pure has h)
        fun _ _ _ _ has h => expect_pure_same rfl has h

/-- Functions with the same parameters and the same body apart from places. -/
theorem erase_function {s s' : Span} {ps ps' : List Param} {body body' : Option Branch}
    (hps : ps.map Param.erase = ps'.map Param.erase)
    (hbody : body.map Branch.erase = body'.map Branch.erase) :
    (Expr.function s ps body).erase = (Expr.function s' ps' body').erase := by
  cases body <;> cases body' <;> simp_all [Expr.erase]

theorem function_same (hi : inner.Alike m) (h : c.Alike m (d + 1) c') :
    Same m Expr.erase d ((function inner t).run c) ((function inner t').run c') := by
  have hrest {ps ps' : List Param} {c c' : Cursor}
      (hps : ps.map Param.erase = ps'.map Param.erase) (h : c.Alike m (d + 1) c') :
      Same m Expr.erase d
        ((do let body ← functionBody inner
             return .function (← spanFrom t.span.start) ps body : Parser Expr).run c)
        ((do let body ← functionBody inner
             return .function (← spanFrom t'.span.start) ps' body : Parser Expr).run c') :=
    .bind (functionBody_same hi h) fun _ _ _ _ hbody h => .spanFrom_bind fun _ _ =>
      .pure (erase_function hps hbody) h
  refine .look_bind (h.looksAt .openBracket) ?_
  split
  · next hopen =>
    refine .discard_take_bind h.toMatches (h.level_of_looksAt hopen) fun c₁ c₁' h₁ => ?_
    rw [Cursor.looksAt_iff.1 hopen, h.here] at h₁
    exact .bind (params_same (d := d + 1) h₁) fun _ _ _ _ hps h => hrest hps h
  · exact .bind (f := List.map Param.erase) (.pure rfl h) fun _ _ _ _ hps h => hrest hps h

/-! ## Groups -/

theorem entry_same (hi : inner.Alike m) (h : c.Alike m d c') :
    Same m Entry.erase d ((entry inner).run c) ((entry inner).run c') := by
  refine .choose_of_level h (fun c hc => ?_) fun hlevel => ?_
  · split
    · next hkey => simp [hkey, Token.Kind.endsLine] at hc
    · rfl
  · rw [← hlevel.kind]
    split
    · next hkey =>
      refine .goOn hlevel fun c₁ c₁' h₁ => ?_
      rw [hkey, h.here] at h₁
      exact .bind (.expect (f := id) .colon .entryColon h₁) fun _ _ _ _ _ h =>
        .bind (hi.expression h) fun _ _ _ _ he h => .pure (by simp [Entry.erase, he]) h
    · exact .stop

theorem startsDict_same (hd : 0 < d) (h : c.Alike m d c') :
    Same m id d (startsDict.run c) (startsDict.run c') := by
  have hlevel := h.level_of_pos hd
  refine .look_bind hlevel.kind ?_
  split
  · next key hkey =>
    exact .peek_bind h hlevel (by rw [hkey, h.here]; exact hd) fun _ => .pure rfl h
  · exact .pure rfl h

theorem group_same (hi : inner.Alike m) (h : c.Alike m (d + 1) c') :
    Same m Expr.erase d ((group inner t).run c) ((group inner t').run c') := by
  refine .bind (skipNewlines_same (by omega) h) fun _ _ c c' _ h =>
    .look_bind (h.looksAt .closeParen) ?_
  split
  · next hclose =>
    refine .discard_take_bind h.toMatches (h.level_of_looksAt hclose) fun c₁ c₁' h₁ =>
      .spanFrom_bind fun _ _ => .pure rfl ?_
    rw [Cursor.looksAt_iff.1 hclose, h.here] at h₁
    exact h₁
  · refine .bind (startsDict_same (by omega) h) fun b b' c c' hb h => ?_
    obtain rfl : b = b' := hb
    split
    · exact .bind (items_same rfl (fun _ _ => entry_same hi) h) fun _ _ _ _ has h =>
        .spanFrom_bind fun _ _ => .pure (by simp [Expr.erase, has]) h
    · exact .bind (items_same rfl (fun _ _ => hi.expression) h) fun _ _ _ _ has h =>
        .spanFrom_bind fun _ _ => .pure (by simp [Expr.erase, has]) h

/-! ## Control forms -/

theorem arms_same (hi : inner.Alike m) (hd : 0 < d) (h : c.Alike m d c') :
    Same m (Prod.map Branch.erase Branch.erase) d ((arms inner).run c) ((arms inner).run c') := by
  refine .bind (firstArm_same hi hd h) fun first first' c c' hfirst h =>
    .look_bind (h.looksAt .closeBracket) ?_
  split
  · have hsplit := Branch.splitLast?_of_erase hfirst
    generalize first.splitLast? = both at hsplit ⊢
    generalize first'.splitLast? = both' at hsplit ⊢
    match both, both', hsplit with
    | none, none, _ => exact .fail _ h.toMatches
    | some _, some _, hboth => exact .pure (Option.some.inj hboth) h
  · exact .bind (.expect (f := id) .semicolon .armSeparator h) fun _ _ _ _ _ h =>
      .bind (arm_same hi hd h) fun _ _ _ _ hlast h => .pure (Prod.ext hfirst hlast) h

/-- A bracket that closes a form, and what the form is. -/
theorem close_same {expected : Expectation} {start start' : Position} {node node' : Span → Expr}
    (hnode : ∀ s s', (node s).erase = (node' s').erase) (h : c.Alike m (d + 1) c') :
    Same m Expr.erase d
      ((do expect .closeBracket expected; return node (← spanFrom start) : Parser Expr).run c)
      ((do expect .closeBracket expected; return node' (← spanFrom start') : Parser Expr).run c') :=
  .bind (.expect (f := id) (n := d + 1) .closeBracket expected h) fun _ _ _ _ _ h =>
    .spanFrom_bind fun _ _ => .pure (hnode _ _) h

theorem conditional_same (hi : inner.Alike m) (h : c.Alike m d c') :
    Same m Expr.erase d ((conditional inner t).run c) ((conditional inner t').run c') := by
  have hd : 0 < d + 1 := by omega
  refine .look_bind (h.looksAt .dot) ?_
  split
  · next hdot =>
    refine .discard_take_bind h.toMatches (h.level_of_looksAt hdot) fun c₁ c₁' h₁ => ?_
    rw [Cursor.looksAt_iff.1 hdot, h.here] at h₁
    exact .bind (.expect (f := id) (n := d) .openBracket .guardBracket h₁) fun _ _ _ _ _ h =>
      .bind (head_same hi hd h) fun _ _ _ _ he h => .bind (arm_same hi hd h)
        fun _ _ _ _ hb h => close_same (fun _ _ => by simp [Expr.erase, he, hb]) h
  · exact .bind (.expect (f := id) (n := d) .openBracket .conditionalBracket h)
      fun _ _ _ _ _ h => .bind (head_same hi hd h) fun _ _ _ _ he h =>
        .bind (arms_same hi hd h) fun ⟨_, _⟩ ⟨_, _⟩ _ _ hb h => close_same
          (fun _ _ => by simp [Expr.erase, he, (Prod.mk.inj hb).1, (Prod.mk.inj hb).2]) h

theorem loop_same {node : Span → Expr → Branch → Expr} (hi : inner.Alike m)
    (hnode : ∀ s s' e e' b b', e.erase = e'.erase → b.erase = b'.erase →
      (node s e b).erase = (node s' e' b').erase)
    (hopen : c.looksAt .openBracket = true) (h : c.Alike m d c') :
    Same m Expr.erase d ((loop inner node t).run c) ((loop inner node t').run c') := by
  have hd : 0 < d + 1 := by omega
  refine .discard_take_bind h.toMatches (h.level_of_looksAt hopen) fun c₁ c₁' h₁ => ?_
  rw [Cursor.looksAt_iff.1 hopen, h.here] at h₁
  exact .bind (head_same hi hd h₁) fun _ _ _ _ he h => .bind (arm_same hi hd h)
    fun _ _ _ _ hb h => close_same (fun _ _ => hnode _ _ _ _ _ _ he hb) h

theorem identifier_same {name : String} (hi : inner.Alike m) (h : c.Alike m d c') :
    Same m Expr.erase d ((identifier inner name t).run c) ((identifier inner name t').run c') := by
  refine .look_bind (h.looksAt .openBracket) ?_
  split
  · next node hname hopen =>
    refine loop_same hi (fun s s' e e' b b' he hb => ?_) hopen h
    rcases loopOfName?_eq_some hname with ⟨-, rfl⟩ | ⟨-, rfl⟩ <;> simp [Expr.erase, he, hb]
  · split
    · exact .note_bind h (.legacySpelling ..) fun _ _ h => .pure rfl h
    · exact .pure rfl h

theorem control_same {word : ControlWord} (hi : inner.Alike m) (h : c.Alike m d c') :
    Same m Expr.erase d ((control inner t word).run c) ((control inner t' word).run c') := by
  cases word with
  | returning =>
    refine .look_bind (h.congr Token.Kind.startsExpression rfl) ?_
    have hrest {value value' : Option Expr} {c c' : Cursor}
        (hvalue : value.map Expr.erase = value'.map Expr.erase) (h : c.Alike m d c') :
        Same m Expr.erase d
          ((do return .returning (← spanFrom t.span.start) value : Parser Expr).run c)
          ((do return .returning (← spanFrom t'.span.start) value' : Parser Expr).run c') :=
      .spanFrom_bind fun _ _ => .pure (by cases value <;> cases value' <;>
        simp_all [Expr.erase]) h
    split
    · exact .bind (.map (hi.expression h) (g := Option.map Expr.erase) fun _ _ he => by simp [he])
        fun _ _ _ _ hvalue h => hrest hvalue h
    · exact .bind (.pure rfl h) fun _ _ _ _ hvalue h => hrest hvalue h
  | breaking | continuing => exact .pure rfl h
  | asserting | trying =>
    exact .bind (hi.expression h) fun _ _ _ _ he h => .spanFrom_bind fun _ _ =>
      .pure (by simp [Expr.erase, he]) h

/-! ## All of them -/

/-- What goes on behind the first token of a primary. -/
theorem primary?_same {kind : Token.Kind} {k : Token → Parser Expr} (hi : inner.Alike m)
    (hk : primary? inner kind = some k) (h : c.Alike m (kind.depthAfter d) c') :
    Same m Expr.erase d ((k t).run c) ((k t').run c') := by
  unfold primary? at hk
  split at hk <;> cases hk
  case h_9 => exact identifier_same hi h
  case h_11 => exact function_same hi h
  case h_12 => exact group_same hi h
  case h_13 => exact conditional_same hi h
  case h_14 => exact control_same hi h
  all_goals exact .pure rfl h

/-- No primary begins with what ends a line. -/
theorem primary?_of_endsLine (inner : Inner) (k : Token.Kind) (hk : k.endsLine = true) :
    primary? inner k = none := by
  cases k <;> first | rfl | cases hk

theorem primary_same (hi : inner.Alike m) (h : c.Alike m d c') :
    Same m Expr.erase d ((primary inner).run c) ((primary inner).run c') :=
  .choose h.toMatches (continues_kind h (primary?_of_endsLine inner) fun _ hk _ _ h₁ =>
    primary?_same hi hk h₁)

end WqSource.Grammar
