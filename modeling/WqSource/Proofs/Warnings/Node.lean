import WqSource.Grammar.Program
import WqSource.Proofs.Spans.Node

/-!
# The warnings of a tree

A name that spells the word of a constant with other letters than the constant has is what a
reader is warned of. A tree has a warning for every use of such a name: the uses are nodes, and
all nodes of a tree are listed from the root, each one in front of its parts.

## Main definitions

* `Node.all`, `Program.nodes`: all nodes, in order.
* `Node.warning?`, `Node.warnings`: what is said about them.

## Main statements

* `Node.mem_all`: the nodes that are listed are those inside.
-/

namespace WqSource
namespace Node

/-- What is made of the members of a list is smaller than the list. -/
theorem sizeOf_lt_of_mem_map {α : Type} [SizeOf α] {f : α → Node} {as : List α} {p : Node}
    (hf : ∀ a, sizeOf (f a) = 1 + sizeOf a) (h : p ∈ as.map f) : sizeOf p < 1 + sizeOf as := by
  obtain ⟨a, ha, rfl⟩ := List.mem_map.1 h
  have := List.sizeOf_lt_of_mem ha
  rw [hf]
  omega

theorem sizeOf_lt_of_mem_optional {α : Type} [SizeOf α] {f : α → Node} {o : Option α} {p : Node}
    (hf : ∀ a, sizeOf (f a) = 1 + sizeOf a) (h : p ∈ o.toList.map f) : sizeOf p < 1 + sizeOf o := by
  cases o with
  | none => simp at h
  | some a =>
    rw [List.mem_singleton.1 h, hf, Option.some.sizeOf_spec]
    omega

theorem sizeOf_lt_of_mem_entries {entries : List Entry} {p : Node}
    (h : p ∈ entries.flatMap Entry.nodes) : sizeOf p < 1 + sizeOf entries := by
  obtain ⟨⟨key, keySpan, value⟩, he, hp⟩ := List.mem_flatMap.1 h
  have hlt := List.sizeOf_lt_of_mem he
  rcases List.mem_pair.1 hp with rfl | rfl <;>
    simp only [Entry.keySpan, Entry.value, Entry.mk.sizeOf_spec, Node.key.sizeOf_spec,
      expression.sizeOf_spec] at hlt ⊢ <;> omega

/-- The parts of an expression are smaller than the expression. -/
theorem sizeOf_lt_of_mem_expression {e : Expr} {p : Node} (h : p ∈ e.parts) :
    sizeOf p < 1 + sizeOf e := by
  cases e
  case function params body =>
    rcases List.mem_append.1 h with h | h
    · have := sizeOf_lt_of_mem_map (fun _ => param.sizeOf_spec _) h
      simp; omega
    · have := sizeOf_lt_of_mem_optional (fun _ => branch.sizeOf_spec _) h
      simp; omega
  case chain base suffixes =>
    rcases List.mem_cons.1 h with rfl | h
    · simp; omega
    · have := sizeOf_lt_of_mem_map (fun _ => suffix.sizeOf_spec _) h
      simp; omega
  case dict entries =>
    have := sizeOf_lt_of_mem_entries h
    simp; omega
  case returning value =>
    have := sizeOf_lt_of_mem_optional (fun _ => expression.sizeOf_spec _) h
    simp; omega
  case pipe | join | list =>
    have := sizeOf_lt_of_mem_map (fun _ => expression.sizeOf_spec _) h
    simp; omega
  all_goals
    simp only [Expr.parts, List.mem_cons, List.not_mem_nil, or_false] at h
    try rcases h with rfl | rfl | rfl
    try rcases h with rfl | rfl
    try subst h
    all_goals simp
    all_goals omega

/-- The parts of a node are smaller than the node. -/
theorem sizeOf_lt_of_mem_parts {x p : Node} (h : p ∈ x.parts) : sizeOf p < sizeOf x := by
  cases x with
  | statement s =>
    cases s with
    | expression e =>
      rw [List.mem_singleton.1 h]
      simp
    | magic => cases h
  | branch b =>
    obtain ⟨s, statements⟩ := b
    have := sizeOf_lt_of_mem_map (fun _ => statement.sizeOf_spec _) h
    simp only [Branch.statements] at this
    simp; omega
  | expression e =>
    rw [expression.sizeOf_spec]
    exact sizeOf_lt_of_mem_expression h
  | suffix s =>
    cases s with
    | index s args =>
      have := sizeOf_lt_of_mem_map (fun _ => expression.sizeOf_spec _) h
      simp; omega
    | apply arg =>
      rw [List.mem_singleton.1 h]
      simp
  | param | key => cases h

/-- The node and all nodes inside it, each one in front of its parts. -/
def all (x : Node) : List Node := x :: x.parts.attach.flatMap fun p => p.1.all
termination_by sizeOf x
decreasing_by exact sizeOf_lt_of_mem_parts p.2

theorem all_eq (x : Node) : x.all = x :: x.parts.flatMap all := by
  rw [all]
  simp

/-- A property that passes from the parts of nodes to the nodes holds of all of them. -/
theorem induction_parts {P : Node → Prop} (h : ∀ x : Node, (∀ p ∈ x.parts, P p) → P x) (x : Node) :
    P x :=
  h x fun p _ => induction_parts h p
termination_by sizeOf x
decreasing_by exact sizeOf_lt_of_mem_parts ‹_›

/-- The nodes that are listed are those inside. -/
theorem mem_all {x y : Node} : y ∈ x.all ↔ y.Within x := by
  constructor
  · induction x using induction_parts with
    | h x ih =>
      rw [all_eq, List.mem_cons, List.mem_flatMap]
      rintro (rfl | ⟨p, hp, hy⟩)
      · exact .refl y
      · exact .part hp (ih p hp hy)
  · intro h
    induction h with
    | refl =>
      rw [all_eq]
      exact List.mem_cons_self
    | part hp _ ih =>
      rw [all_eq]
      exact List.mem_cons_of_mem _ (List.mem_flatMap.2 ⟨_, hp, ih⟩)

/-- What a reader is warned of at a node: a name that is not reserved and that spells, apart from
the case of its letters, the word of a constant. -/
def warning? : Node → Option Problem
  | expression (.name span name false) =>
    if name.toLower = "inf" ∨ name.toLower = "nan" then
      some (.legacySpelling name name.toLower span)
    else none
  | _ => none

/-- What a reader is warned of in a row of nodes, and in all that is inside them. -/
def warnings (xs : List Node) : List Problem := (xs.flatMap all).filterMap warning?

@[simp] theorem warnings_append (xs ys : List Node) :
    warnings (xs ++ ys) = warnings xs ++ warnings ys := by
  simp [warnings]

/-- A node that is no name has the warnings of its parts. -/
theorem warnings_parts {x : Node} (hx : x.warning? = none) : warnings [x] = warnings x.parts := by
  simp [warnings, all_eq x, hx]

end Node

/-- All nodes of a program, in order. -/
def Program.nodes (p : Program) : List Node := (p.statements.map Node.statement).flatMap Node.all

end WqSource
