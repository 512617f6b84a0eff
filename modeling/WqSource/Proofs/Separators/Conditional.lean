import WqSource.Proofs.Separators.Arms
import WqSource.Proofs.Separators.Program

/-!
# The arms of a conditional are divided correctly

Expressions that occur in programs are written as the condition and the lines of a conditional,
with a semicolon and a second arm behind the lines or without. In the first case the lines are the
first arm. In the second, the last line is the second arm, and if it is the only one, the text is
in error.

## Main definitions

* `Printed`: an expression and the layout it is written in.
* `Row.dividedText`, `Row.undividedText`: the two texts of a conditional.
* `Row.ArmsDivided`: what they are parsed to.

## Main statements

* `parse_arms`.
-/

namespace WqSource
open Grammar WqSource.Parser

/-- An expression and the layout it is written in. -/
structure Printed where
  value : Expr
  layout : Layout

namespace Printed

/-- The text of the expression. -/
def text (p : Printed) : List Char := (p.value.text p.layout).toList

/-- The expression as a statement. -/
def statement (p : Printed) : Statement := .expression p.value

/-- Expressions as the statements of an arm. -/
def arm (ps : List Printed) : Branch := .mk default (ps.map statement)

/-- Whether the expression is one of a program that may stand a level deeper than a statement. -/
structure Readable (p : Printed) : Prop where
  occurs : ∃ source recover, p.value.OccursIn (parse source recover).program
  room : p.value.levels < maxNesting

variable {p : Printed}

theorem Readable.nestsIn (h : p.Readable) : p.value.NestsIn maxDepth := by
  obtain ⟨source, recover, hoccurs⟩ := h.occurs
  exact hoccurs.nestsIn h.room

theorem Readable.part (h : p.Readable) : Part p.text p.statement.kinds := by
  obtain ⟨source, recover, hoccurs⟩ := h.occurs
  rw [statement, Statement.kinds_expression]
  exact hoccurs.part h.room p.layout

end Printed

namespace Row

/-- A conditional with a semicolon and another arm behind the lines. -/
def dividedText (condition : Printed) (lines elseRow : Row Printed) : List Char :=
  '$' :: '[' :: (condition.text ++ (lines.text Printed.text ++
    ';' :: (elseRow.text Printed.text ++ [']'])))

/-- A conditional with nothing behind the lines. -/
def undividedText (condition : Printed) (lines : Row Printed) : List Char :=
  '$' :: '[' :: (condition.text ++ (lines.text Printed.text ++ [']']))

/-- What a condition and lines are parsed to. -/
structure ArmsDivided (condition : Printed) (lines : Row Printed) (again : Bool) : Prop where
  /-- In front of a semicolon and another arm, the lines are the first arm. -/
  divided : ∀ elseRow : Row Printed, elseRow.Parted → elseRow.Accepted →
    (∀ p ∈ elseRow.items, p.Readable) →
      (parse (String.ofList (dividedText condition lines elseRow)) again).IsExpression
        (.conditional default condition.value (Printed.arm lines.items) (Printed.arm elseRow.items))
  /-- With nothing behind them, the last line is the second arm. -/
  undivided : ∀ (first : List Printed) (last : Printed), first ≠ [] →
    lines.items = first ++ [last] →
      (parse (String.ofList (undividedText condition lines)) again).IsExpression
        (.conditional default condition.value (Printed.arm first) (Printed.arm [last]))
  /-- One line is not enough then. -/
  single : lines.more = [] →
    (parse (String.ofList (undividedText condition lines)) again).errors ≠ []

/-! ### Texts and tokens -/

variable {condition : Printed} {lines elseRow : Row Printed} {rest : List Char}

/-- The arm that rows of expressions make as statements. -/
theorem arm_map (r : Row Printed) : (r.map Printed.statement).arm = Printed.arm r.items := by
  rw [arm, items_map, Printed.arm]

theorem arm_nestsIn (h : ∀ p ∈ lines.items, p.Readable) :
    (lines.map Printed.statement).arm.NestsIn maxDepth := by
  rw [arm_map]
  refine ⟨by simp [Printed.arm, Branch.statements, items], fun s hs => ?_⟩
  obtain ⟨p, hp, rfl⟩ := List.mem_map.1 hs
  exact ⟨p.value, rfl, (h p hp).nestsIn⟩

/-- A condition and the lines behind it, between their brackets. -/
theorem spells_behind_dollar (hcondition : condition.Readable) (hopening : lines.opening.EndsHead)
    {ks : List Token.Kind}
    (h : Spells [] (lines.text Printed.text ++ rest)
      ((lines.map Printed.statement).kinds Statement.kinds ++ ks)) :
    Spells [] ('$' :: '[' :: (condition.text ++ (lines.text Printed.text ++ rest)))
      (.punct .dollar :: .punct .openBracket :: (condition.value.kinds ++
        ((lines.map Printed.statement).kinds Statement.kinds ++ ks))) := by
  have hcloses : Closes (lines.text Printed.text ++ rest ++ []) := by
    rw [Row.text, List.append_assoc, List.append_assoc]
    refine lines.opening.closes fun hempty => ?_
    rw [hopening.isEmpty] at hempty
    cases hempty
  have hinside := (hcondition.part.spells _ hcloses).append h
  rw [Printed.statement, Statement.kinds_expression] at hinside
  exact (Spells.punct (p := .dollar) trivial).append
    ((Spells.punct (p := .openBracket) trivial).append hinside)

theorem closing_spells : Spells [] [']'] [.punct .closeBracket] :=
  Spells.punct (p := .closeBracket) Token.Kind.endsBefore_nil

theorem undividedText_spells (hcondition : condition.Readable) (hlines : lines.OnLines)
    (hread : ∀ p ∈ lines.items, p.Readable) :
    Spells [] (undividedText condition lines)
      (.punct .dollar :: .punct .openBracket :: (condition.value.kinds ++
        ((lines.map Printed.statement).kinds Statement.kinds ++ [.punct .closeBracket]))) := by
  refine spells_behind_dollar hcondition hlines.opening ?_
  rw [kinds_map]
  exact (lines.spells hlines.parted (fun p hp => (hread p hp).part)
    (begins_mark (by decide) (by decide) (by decide)) (closes_cons (by decide))).append
      closing_spells

theorem dividedText_spells (hcondition : condition.Readable) (hlines : lines.OnLines)
    (hread : ∀ p ∈ lines.items, p.Readable) (hparted : elseRow.Parted)
    (helse : ∀ p ∈ elseRow.items, p.Readable) :
    Spells [] (dividedText condition lines elseRow)
      (.punct .dollar :: .punct .openBracket :: (condition.value.kinds ++
        ((lines.map Printed.statement).kinds Statement.kinds ++ .punct .semicolon ::
          ((elseRow.map Printed.statement).kinds Statement.kinds ++ [.punct .closeBracket])))) := by
  refine spells_behind_dollar hcondition hlines.opening ?_
  have hsemicolon : Spells (elseRow.text Printed.text ++ [']'] ++ []) [';'] [.punct .semicolon] :=
    Spells.punct (p := .semicolon) trivial
  have hbehind := (elseRow.spells hparted (fun p hp => (helse p hp).part)
    (begins_mark (by decide) (by decide) (by decide)) (closes_cons (by decide))).append
      closing_spells
  have hlinesSpell : Spells (';' :: (elseRow.text Printed.text ++ [']'])) (lines.text Printed.text)
      (lines.kinds fun p => p.statement.kinds) :=
    lines.spells hlines.parted (fun p hp => (hread p hp).part)
      (begins_mark (by decide) (by decide) (by decide)) (closes_cons (by decide))
  rw [kinds_map, kinds_map]
  rw [← List.append_nil (elseRow.text Printed.text ++ [']'])] at hlinesSpell
  exact hlinesSpell.append (hsemicolon.append hbehind)

end Row

namespace Grammar
/-- The arms of a conditional are divided by the semicolon behind the lines, or, without one, in
front of the last line. -/
theorem parse_arms (condition : Printed) (lines : Row Printed) (again : Bool)
    (hcondition : condition.Readable) (hlines : lines.OnLines)
    (hread : ∀ p ∈ lines.items, p.Readable) : Row.ArmsDivided condition lines again := by
  have hi := level_complete maxDepth
  have hnests := Row.arm_nestsIn hread
  have hmapped : (lines.map Printed.statement).OnLines := Row.onLines_map.2 hlines
  refine ⟨?_, ?_, ?_⟩
  · intro elseRow hparted haccepted helse
    refine isExpression_of_chain (Row.dividedText_spells hcondition hlines hread hparted helse)
      (by simp [Row.dividedText]) rfl
      (fun c hc => chain_ended (primary_succeeds rfl hc fun c₁ hc₁ => ?_)) again
    refine conditional_succeeds hi hcondition.nestsIn hmapped hnests default hc₁ fun c₂ hc₂ => ?_
    rw [← Row.arm_map, ← Row.arm_map]
    exact arms_divided hi hmapped hnests (Row.parted_map.2 hparted) (Row.accepted_map.2 haccepted)
      (Row.arm_nestsIn helse) hc₂
  · intro first last hne hitems
    have hstatements : (lines.map Printed.statement).items =
        first.map Printed.statement ++ [last.statement] := by
      rw [Row.items_map, hitems, List.map_append, List.map_singleton]
    refine isExpression_of_chain (Row.undividedText_spells hcondition hlines hread)
      (by simp [Row.undividedText]) rfl
      (fun c hc => chain_ended (primary_succeeds rfl hc fun c₁ hc₁ => ?_)) again
    refine conditional_succeeds hi hcondition.nestsIn hmapped hnests default hc₁ fun c₂ hc₂ => ?_
    exact arms_undivided hi hmapped hnests (by simpa using hne) hstatements hc₂
  · intro hmore
    refine errors_of_chain_refused (Row.undividedText_spells hcondition hlines hread)
      (by simp [Row.undividedText]) rfl
      (fun c hc => (primary_refused rfl hc fun c₁ hc₁ => ?_).bind) again
    refine conditional_refuses hi hcondition.nestsIn hmapped hnests hc₁ fun c₂ hc₂ => ?_
    exact arms_single hi hmapped hnests (by rw [Row.map, hmore]; rfl) hc₂

/-- Lines behind a semicolon, each with line feeds behind it. -/
def linesOf (p : Printed) (more : List Printed) : Row Printed :=
  ⟨⟨none, [some ⟨['\n'], .single⟩]⟩, p, more.map fun q => (⟨some ⟨['\n'], .single⟩, []⟩, q),
    ⟨some ⟨['\n'], .single⟩, []⟩⟩

/-- A number on one line or on two, with a second arm behind a semicolon or without. -/
theorem parse_arms_numbers :
    ∃ e : Expr, e.OccursIn (parse "7" false).program ∧
      (parse "$[7;\n7\n7\n;\n7;7;]" true).IsExpression (.conditional default e
        (.mk default [.expression e, .expression e]) (.mk default [.expression e, .expression e])) ∧
      (parse "$[7;\n7\n7\n]" true).IsExpression (.conditional default e
        (.mk default [.expression e]) (.mk default [.expression e])) ∧
      (parse "$[7;\n7\n]" true).errors ≠ [] := by
  obtain ⟨e, hoccurs, htext, -, hlevels⟩ := exists_number
  obtain ⟨p, hp, hvalue, htext⟩ : ∃ p : Printed, p.Readable ∧ p.value = e ∧ p.text = ['7'] := by
    have hprinted : Printed.Readable ⟨e, .compact⟩ :=
      ⟨⟨_, _, hoccurs⟩, hlevels.trans_lt (by decide)⟩
    exact ⟨_, hprinted, rfl, by simp [Printed.text, htext]⟩
  have harms (more : List Printed) (hmore : ∀ q ∈ more, q.Readable) :
      Row.ArmsDivided p (linesOf p more) true := by
    refine parse_arms p _ true hp ⟨.inl ⟨rfl, rfl⟩, ?_, ?_, rfl⟩ ?_
    · exact List.forall_mem_map.2 fun _ _ => rfl
    · exact List.forall_mem_map.2 fun _ _ => rfl
    · simpa [linesOf, Row.items, hp] using hmore
  have htwo := harms [p] (by simpa using hp)
  refine ⟨e, hoccurs, ?_, ?_, ?_⟩
  · have hdivided := htwo.divided
      ⟨⟨some ⟨['\n'], .single⟩, []⟩, p, [(⟨none, [none]⟩, p)], ⟨none, [none]⟩⟩
      (by simp [Row.Parted, Filler.isEmpty]) ⟨rfl, by simp, by simp⟩ (by simp [Row.items, hp])
    simpa [Row.dividedText, Row.text, Row.behind, linesOf, Filler.text, Feeds.text, htext, hvalue,
      Row.items, Printed.arm, Printed.statement] using hdivided
  · have hundivided := htwo.undivided [p] p (by simp) rfl
    simpa [Row.undividedText, Row.text, Row.behind, linesOf, Filler.text, Feeds.text, htext, hvalue,
      Printed.arm, Printed.statement] using hundivided
  · have hsingle := (harms [] (by simp)).single rfl
    simpa [Row.undividedText, Row.text, Row.behind, linesOf, Filler.text, Feeds.text, htext] using
      hsingle

end Grammar
end WqSource
