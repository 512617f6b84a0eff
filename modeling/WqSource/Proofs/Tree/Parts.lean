import WqSource.Tree

/-!
# The expressions inside an expression

The direct parts of an expression are of two kinds. Its operands are read where it is read
itself. What is nested in it is read one level deeper: values, exponents, and all that
brackets and control words enclose. `Expr.Within` follows the parts all the way down and
counts the levels, so a statement about every expression of a tree, or about how deep a
tree is, is a statement about that relation.

## Main definitions

* `Expr.operands`, `Expr.nested`: the direct parts.
* `Expr.Within`: the expressions inside an expression, with their levels.
* `Expr.Everywhere`: a property of all of them that may depend on the level.

## Main statements

* `Expr.induction_parts`: a property that passes from the parts to the whole holds always.
-/

namespace WqSource

/-- The expression that a statement is, unless it is a line for the host. -/
def Statement.expression? : Statement → Option Expr
  | expression e => some e
  | magic .. => none

/-- The expressions among the statements of a branch. -/
def Branch.expressions (b : Branch) : List Expr := b.statements.filterMap Statement.expression?

namespace Suffix

/-- The argument that a suffix without brackets is. -/
def argument? : Suffix → Option Expr
  | index .. => none
  | apply arg => some arg

/-- The arguments between the brackets of a suffix. -/
def indices : Suffix → List Expr
  | index _ args => args
  | apply _ => []

end Suffix

namespace Expr

/-- The parts that are read at the level of the expression itself. -/
def operands : Expr → List Expr
  | assignment _ target _ => [target]
  | pipe _ stages => stages
  | join _ elements => elements
  | binary _ _ left right => [left, right]
  | unary _ _ operand => [operand]
  | power _ base _ => [base]
  | chain _ base suffixes => base :: suffixes.filterMap Suffix.argument?
  | _ => []

/-- The parts that are read one level deeper. -/
def nested : Expr → List Expr
  | assignment _ _ value => [value]
  | power _ _ exponent => [exponent]
  | chain _ _ suffixes => suffixes.flatMap Suffix.indices
  | function _ _ body => body.elim [] Branch.expressions
  | list _ items => items
  | dict _ entries => entries.map Entry.value
  | conditional _ condition thenArm elseArm =>
    condition :: (thenArm.expressions ++ elseArm.expressions)
  | guarded _ condition arm => condition :: arm.expressions
  | whileLoop _ condition body => condition :: body.expressions
  | countLoop _ count body => count :: body.expressions
  | returning _ value => value.toList
  | asserting _ claim => [claim]
  | trying _ attempt => [attempt]
  | _ => []

/-- `x.Within k e` says that `x` is `e` or stands in it, `k` levels deeper. -/
inductive Within : Nat → Expr → Expr → Prop where
  | refl (e : Expr) : Within 0 e e
  | operand {k : Nat} {x y e : Expr} : y ∈ e.operands → Within k x y → Within k x e
  | nested {k : Nat} {x y e : Expr} : y ∈ e.nested → Within k x y → Within (k + 1) x e

/-- A property of every expression inside an expression and of its level there. -/
def Everywhere (P : Nat → Expr → Prop) (e : Expr) : Prop := ∀ k x, Within k x e → P k x

/-- A property holds everywhere in an expression if it holds of the expression itself and
everywhere in its parts, those that are nested being one level deeper. -/
theorem everywhere_iff {P : Nat → Expr → Prop} {e : Expr} :
    e.Everywhere P ↔
      P 0 e ∧ (∀ x ∈ e.operands, x.Everywhere P) ∧
        ∀ x ∈ e.nested, x.Everywhere fun k => P (k + 1) := by
  constructor
  · intro h
    refine ⟨h 0 e (.refl e), ?_, ?_⟩
    · intro x hx k y hy
      exact h k y (.operand hx hy)
    · intro x hx k y hy
      exact h (k + 1) y (.nested hx hy)
  · rintro ⟨here, operands, nested⟩ k x hx
    cases hx with
    | refl => exact here
    | operand hy hx => exact operands _ hy k x hx
    | nested hy hx => exact nested _ hy _ x hx

/-! ## Induction over the parts -/

section Size

private theorem sizeOf_lt_of_mem_expressions {b : Branch} {x : Expr} (h : x ∈ b.expressions) :
    sizeOf x < sizeOf b := by
  obtain ⟨span, statements⟩ := b
  obtain ⟨s, hs, hx⟩ := List.mem_filterMap.1 h
  have hs : s ∈ statements := hs
  have := List.sizeOf_lt_of_mem hs
  cases s with
  | magic => cases hx
  | expression e =>
    cases hx
    simp only [Statement.expression.sizeOf_spec, Branch.mk.sizeOf_spec] at *
    omega

private theorem sizeOf_lt_of_mem_arguments {suffixes : List Suffix} {x : Expr}
    (h : x ∈ suffixes.filterMap Suffix.argument?) : sizeOf x < sizeOf suffixes := by
  obtain ⟨s, hs, hx⟩ := List.mem_filterMap.1 h
  have := List.sizeOf_lt_of_mem hs
  cases s with
  | index => cases hx
  | apply arg =>
    cases hx
    simp only [Suffix.apply.sizeOf_spec] at this
    omega

private theorem sizeOf_lt_of_mem_indices {suffixes : List Suffix} {x : Expr}
    (h : x ∈ suffixes.flatMap Suffix.indices) : sizeOf x < sizeOf suffixes := by
  obtain ⟨s, hs, hx⟩ := List.mem_flatMap.1 h
  have := List.sizeOf_lt_of_mem hs
  cases s with
  | apply => cases hx
  | index span args =>
    have hx : x ∈ args := hx
    have := List.sizeOf_lt_of_mem hx
    simp only [Suffix.index.sizeOf_spec] at *
    omega

private theorem sizeOf_lt_of_mem_values {entries : List Entry} {x : Expr}
    (h : x ∈ entries.map Entry.value) : sizeOf x < sizeOf entries := by
  obtain ⟨e, he, rfl⟩ := List.mem_map.1 h
  have := List.sizeOf_lt_of_mem he
  obtain ⟨key, span, value⟩ := e
  simp only [Entry.mk.sizeOf_spec, Entry.value] at *
  omega

/-- An operand is smaller than the expression. -/
theorem sizeOf_lt_of_mem_operands {e x : Expr} (h : x ∈ e.operands) : sizeOf x < sizeOf e := by
  cases e with
  | chain span base suffixes =>
    rcases List.mem_cons.1 h with rfl | h
    · simp only [chain.sizeOf_spec]
      omega
    · have := sizeOf_lt_of_mem_arguments h
      simp only [chain.sizeOf_spec]
      omega
  | pipe span stages =>
    have := List.sizeOf_lt_of_mem (show x ∈ stages from h)
    simp only [pipe.sizeOf_spec]
    omega
  | join span elements =>
    have := List.sizeOf_lt_of_mem (show x ∈ elements from h)
    simp only [join.sizeOf_spec]
    omega
  | binary span op left right =>
    simp only [operands, List.mem_cons, List.not_mem_nil, or_false] at h
    rcases h with rfl | rfl <;> simp only [binary.sizeOf_spec] <;> omega
  | assignment | unary | power =>
    simp only [operands, List.mem_singleton] at h
    subst h
    simp only [assignment.sizeOf_spec, unary.sizeOf_spec, power.sizeOf_spec]
    omega
  | _ => cases h

/-- What is nested in an expression is smaller. -/
theorem sizeOf_lt_of_mem_nested {e x : Expr} (h : x ∈ e.nested) : sizeOf x < sizeOf e := by
  cases e with
  | chain span base suffixes =>
    have := sizeOf_lt_of_mem_indices h
    simp only [chain.sizeOf_spec]
    omega
  | function span params body =>
    cases body with
    | none => cases h
    | some b =>
      have := sizeOf_lt_of_mem_expressions (show x ∈ b.expressions from h)
      simp only [function.sizeOf_spec, Option.some.sizeOf_spec]
      omega
  | list span items =>
    have := List.sizeOf_lt_of_mem (show x ∈ items from h)
    simp only [list.sizeOf_spec]
    omega
  | dict span entries =>
    have := sizeOf_lt_of_mem_values h
    simp only [dict.sizeOf_spec]
    omega
  | conditional span condition thenArm elseArm =>
    simp only [nested, List.mem_cons, List.mem_append] at h
    simp only [conditional.sizeOf_spec]
    rcases h with rfl | h | h
    · omega
    · have := sizeOf_lt_of_mem_expressions h
      omega
    · have := sizeOf_lt_of_mem_expressions h
      omega
  | guarded | whileLoop | countLoop =>
    simp only [nested, List.mem_cons] at h
    simp only [guarded.sizeOf_spec, whileLoop.sizeOf_spec, countLoop.sizeOf_spec]
    rcases h with rfl | h
    · omega
    · have := sizeOf_lt_of_mem_expressions h
      omega
  | returning span value =>
    cases value with
    | none => cases h
    | some v =>
      simp only [nested, Option.toList_some, List.mem_singleton] at h
      subst h
      simp only [returning.sizeOf_spec, Option.some.sizeOf_spec]
      omega
  | assignment | power | asserting | trying =>
    simp only [nested, List.mem_singleton] at h
    subst h
    simp only [assignment.sizeOf_spec, power.sizeOf_spec, asserting.sizeOf_spec,
      trying.sizeOf_spec]
    omega
  | _ => cases h

end Size

/-- A property that passes from the parts of an expression to the whole holds of every
expression. -/
theorem induction_parts {P : Expr → Prop}
    (h : ∀ e : Expr, (∀ x ∈ e.operands, P x) → (∀ x ∈ e.nested, P x) → P e) (e : Expr) : P e :=
  h e
    (fun x hx =>
      have := sizeOf_lt_of_mem_operands hx
      induction_parts h x)
    (fun x hx =>
      have := sizeOf_lt_of_mem_nested hx
      induction_parts h x)
termination_by sizeOf e

end Expr
end WqSource
