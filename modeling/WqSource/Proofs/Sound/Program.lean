import WqSource.Proofs.Grammar.Recovery
import WqSource.Proofs.Sound.Operator

/-!
# Programs are read as they are written

Every statement of a program is a line for the host or a regular tree, whatever errors
there are between the statements.

## Main definitions

* `Statement.Regular`: the statements that a program has.
* `Expr.OccursIn`: the expressions of a program.

## Main statements

* `program_regular`: the statements of every program are regular.
* `parse_wellShaped`: every expression of every program is well shaped.
-/

namespace WqSource
open Grammar WqSource.Parser

/-- How many levels a tree can have in it. -/
abbrev Grammar.maxDepth : Nat := maxNesting - 1

/-- Whether a statement is a line for the host or a regular tree. -/
def Statement.Regular : Statement → Prop
  | expression e => e.Regular maxDepth
  | magic .. => True

/-- Whether an expression is a statement of a program or stands in one. -/
def Expr.OccursIn (x : Expr) (p : Program) : Prop :=
  ∃ e, .expression e ∈ p.statements ∧ ∃ k, x.Within k e

namespace Parser
variable {α : Type}

/-- What holds of all that one part gives holds of all that is collected. -/
theorem collect_forall {again : Cursor → Bool} {part : Parser (Outcome (List α))}
    {I : Cursor → Prop} {P : α → Prop} (hI : ∀ c c', I c → c.Reaches c' → I c')
    (hpart : ∀ c, I c → part.Ensures c fun o _ => ∀ a ∈ o.result, P a) {c : Cursor} (hc : I c) :
    ∀ a ∈ (collect again part c).1.result, P a := by
  have hreaches (c : Cursor) : c.Reaches (part.run c).2 := part.reaches c
  fun_induction collect again part c with
  | case1 => simp
  | case2 c items e c₁ hp => exact hpart c hc _ _ hp
  | case3 c items c₁ hp => exact hpart c hc _ _ hp
  | case4 c items c₁ hp => exact fun a ha => hpart c hc _ _ hp a ha
  | case5 c items c₁ hp _ _ t c₂ ht further c₃ hr ih =>
    have hc₁ : I c₁ := hI c c₁ hc (by simpa [hp] using hreaches c)
    have hc₂ : I c₂ := hI c₁ c₂ hc₁ (by simpa [ht] using Cursor.Reaches.take (.refl c₁))
    intro a ha
    rcases List.mem_append.1 ha with ha | ha
    · exact hpart c hc _ _ hp a ha
    · exact ih hc₂ a (by simpa [hr] using ha)
  | case6 c items c₁ hp => exact hpart c hc _ _ hp

end Parser

namespace Grammar
variable {c : Cursor}

/-- Outside all brackets, a statement may be a line for the host. -/
theorem statement_regular (hc : c.Legal) :
    (statement (level maxNesting)).Ensures c fun s c' => c.Gives s.words c' ∧ s.Regular := by
  refine Ensures.look_bind ?_
  split
  · next payload h =>
    refine Ensures.bind (Ensures.take fun c₁ ht => Ensures.pure ⟨?_, trivial⟩)
    exact .word ht (by rw [h]; rfl) (by simp [h]) (by simp)
  · refine Ensures.bind (((level_sound maxNesting).expression c hc).mono ?_)
    rintro e c' ⟨⟨m, hm, he⟩, -⟩
    obtain rfl : m = maxDepth := by simp only [maxDepth]; omega
    exact Ensures.pure ⟨he.passes.gives, he.regular⟩

/-- What holds of every statement that is read holds of those in a part of a program. -/
theorem optionalStatement_forall {recover : Bool} {P : Statement → Prop}
    (h : (statement (level maxNesting)).Ensures c fun s _ => P s) :
    (optionalStatement recover).Ensures c fun o _ => ∀ s ∈ o.result, P s := by
  refine Ensures.look_bind ?_
  split
  · exact Ensures.pure nofun
  · refine Ensures.bind (Ensures.attempt ?_)
    split
    · exact afterError_result.mono fun o _ h => by simp [h]
    · next s hs =>
      have hstatement : P s := h s _ (Prod.ext hs rfl)
      refine Ensures.look_bind ?_
      split
      · exact Ensures.pure (by simpa using hstatement)
      · exact Ensures.look_bind (afterError_result.mono fun o _ h => by simpa [h] using hstatement)

/-- What holds of every statement that is read holds of those of a program. -/
theorem program_forall (recover : Bool) {I : Cursor → Prop} {P : Statement → Prop}
    (hI : ∀ c c', I c → c.Reaches c' → I c')
    (h : ∀ c, I c → (statement (level maxNesting)).Ensures c fun s _ => P s) (hc : I c) :
    ∀ s ∈ (program recover c).1.result.statements, P s := by
  have hshebang := shebang.reaches c
  unfold program
  split
  · exact nofun
  · next c₁ hs =>
    exact collect_forall hI (fun c hc => optionalStatement_forall (h c hc))
      (hI _ _ hc (by simpa [hs] using hshebang))

/-- The statements of every program are regular. -/
theorem program_regular (recover : Bool) (hc : c.Legal) :
    ∀ s ∈ (program recover c).1.result.statements, s.Regular :=
  program_forall recover (fun _ _ h hr => Cursor.Each.reaches h hr)
    (fun _ hc => (statement_regular hc).mono fun _ _ h => h.2) hc

/-- The cursor in front of a text is as the parsers want it to be. -/
theorem legal_ofString {source : String} (h : Cursor.ofString source = .ok c) : c.Legal :=
  Cursor.each_ofString (fun _ _ _ h => h.magic) h

theorem parse_regular (source : String) (recover : Bool) :
    ∀ s ∈ (parse source recover).program.statements, s.Regular := by
  change ∀ s ∈ (read source recover).program.statements, s.Regular
  unfold read
  split
  · exact nofun
  · next c hc => exact program_regular recover (legal_ofString hc)

/-- Every expression of every program is well shaped. -/
theorem parse_wellShaped (source : String) (recover : Bool) (x : Expr)
    (hx : x.OccursIn (parse source recover).program) : x.WellShaped := by
  obtain ⟨e, he, k, hk⟩ := hx
  have hregular : e.Regular maxDepth := parse_regular source recover _ he
  exact (hregular k x hk).1

/-- A power occurs in a text that has one, and is well shaped there. -/
theorem parse_wellShaped_power :
    ∃ x : Expr, x.OccursIn (parse "2^3" false).program ∧ x.rank = .power ∧ x.WellShaped := by
  have hpower : (parse "2^3" false).program.statements.any
      (fun s => s.expression?.any (·.rank == .power)) = true := by
    decide +kernel
  obtain ⟨s, hs, hrank⟩ := List.any_eq_true.1 hpower
  cases s with
  | magic => cases hrank
  | expression x =>
    have hx : x.OccursIn (parse "2^3" false).program := ⟨x, hs, 0, .refl x⟩
    exact ⟨x, hx, by simpa [Statement.expression?] using hrank, parse_wellShaped "2^3" false x hx⟩

end Grammar
end WqSource
