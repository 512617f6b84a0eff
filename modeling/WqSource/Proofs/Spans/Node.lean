import WqSource.Tree
import Mathlib.Data.List.Basic

/-!
# The nodes of a tree and their spans

Everything in a tree that has a span is a node, and the parts of a node stand in it in the order
in which they are written. A node is orderly if its parts stand in its span, one behind the
other; a branch begins where its first statement does and ends with its last one.

Nodes in a row are what is read piece by piece. A row of nodes that are orderly all the way down
makes such a node if its span covers the row.

## Main definitions

* `Node`, `Node.parts`: the nodes, and what they are made of.
* `Node.Within`: the nodes inside a node.
* `Node.Orderly`, `Node.Nested`: a node, and all that is inside it.
* `Laid`: nodes in a row between two places.

## Main statements

* `Node.nested_iff`: from the parts to the whole.
* `Laid.branch`: a branch takes its span from its statements.
-/

namespace WqSource

/-- What has a span in a tree. -/
inductive Node where
  | statement (s : Statement)
  | branch (b : Branch)
  | expression (e : Expr)
  | suffix (s : Suffix)
  | param (p : Param)
  /-- The symbol of an entry. -/
  | key (span : Span)

namespace Node

/-- The span of text the node was read from. -/
def span : Node → Span
  | statement s => s.span
  | branch b => b.span
  | expression e => e.span
  | suffix s => s.span
  | param p => p.span
  | key span => span

/-- The byte where the node begins. -/
def start (x : Node) : Nat := x.span.start.offset

/-- The byte where the node ends. -/
def stop (x : Node) : Nat := x.span.stop.offset

end Node

/-- The nodes of an entry. -/
def Entry.nodes (e : Entry) : List Node := [.key e.keySpan, .expression e.value]

/-- The direct parts of an expression, in order. -/
def Expr.parts : Expr → List Node
  | assignment _ target value => [.expression target, .expression value]
  | pipe _ es | join _ es | list _ es => es.map .expression
  | binary _ _ left right => [.expression left, .expression right]
  | unary _ _ operand => [.expression operand]
  | power _ base exponent => [.expression base, .expression exponent]
  | chain _ base suffixes => .expression base :: suffixes.map .suffix
  | function _ params body => params.map .param ++ body.toList.map .branch
  | dict _ entries => entries.flatMap Entry.nodes
  | conditional _ condition thenArm elseArm =>
    [.expression condition, .branch thenArm, .branch elseArm]
  | guarded _ condition arm => [.expression condition, .branch arm]
  | whileLoop _ condition body => [.expression condition, .branch body]
  | countLoop _ count body => [.expression count, .branch body]
  | returning _ value => value.toList.map .expression
  | asserting _ claim => [.expression claim]
  | trying _ attempt => [.expression attempt]
  | literal .. | name .. | unit _ | breaking _ | continuing _ => []

namespace Node

/-- The direct parts of a node, in order. -/
def parts : Node → List Node
  | statement (.expression e) => [expression e]
  | branch b => b.statements.map statement
  | expression e => e.parts
  | suffix (.index _ args) => args.map expression
  | suffix (.apply arg) => [expression arg]
  | statement (.magic ..) | param _ | key _ => []

/-- Whether a node is another one or stands inside it. -/
inductive Within : Node → Node → Prop where
  | refl (x : Node) : Within x x
  | part {x p y : Node} : p ∈ y.parts → Within x p → Within x y

/-- What holds of a node and of all nodes inside its parts holds of all nodes inside it. -/
theorem forall_within_iff {P : Node → Prop} {x : Node} :
    (∀ y : Node, y.Within x → P y) ↔ P x ∧ ∀ p ∈ x.parts, ∀ y : Node, y.Within p → P y := by
  constructor
  · intro h
    exact ⟨h x (.refl x), fun p hp y hy => h y (.part hp hy)⟩
  · rintro ⟨hx, hparts⟩ y hy
    cases hy with
    | refl => exact hx
    | part hp hy => exact hparts _ hp y hy

/-- The span of a node fits its parts. -/
structure Orderly (x : Node) : Prop where
  nonempty : x.start < x.stop
  /-- The parts stand inside the node. -/
  inside : ∀ p ∈ x.parts, x.start ≤ p.start ∧ p.stop ≤ x.stop
  /-- The parts do not overlap, and come in order. -/
  ordered : x.parts.Pairwise fun p q => p.stop ≤ q.start
  /-- A branch has statements, and no more text than from the first through the last. -/
  branch : ∀ b, x = .branch b →
    b.statements.head?.map (·.span.start) = some b.span.start ∧
      b.statements.getLast?.map (·.span.stop) = some b.span.stop

/-- The node and all nodes inside it are orderly. -/
def Nested (x : Node) : Prop := ∀ y : Node, y.Within x → y.Orderly

theorem nested_iff {x : Node} : x.Nested ↔ x.Orderly ∧ ∀ p ∈ x.parts, p.Nested :=
  forall_within_iff

/-- What is inside a nested node stands in its span. -/
theorem Nested.within {x y : Node} (hx : x.Nested) (h : y.Within x) :
    x.start ≤ y.start ∧ y.stop ≤ x.stop := by
  induction h with
  | refl => exact ⟨Nat.le_refl _, Nat.le_refl _⟩
  | part hp _ ih =>
    obtain ⟨horderly, hparts⟩ := nested_iff.1 hx
    obtain ⟨hstart, hstop⟩ := horderly.inside _ hp
    obtain ⟨hstart', hstop'⟩ := ih (hparts _ hp)
    omega

end Node

/-! ## Rows -/

/-- Nested nodes in a row from one place to another. -/
def Laid (a : Nat) : List Node → Nat → Prop
  | [], b => a ≤ b
  | x :: xs, b => a ≤ x.start ∧ x.Nested ∧ Laid x.stop xs b

namespace Laid
variable {a a' b b' d : Nat} {x : Node} {xs ys : List Node}

theorem le (h : Laid a xs b) : a ≤ b := by
  induction xs generalizing a with
  | nil => exact h
  | cons x xs ih =>
    obtain ⟨hstart, hx, hxs⟩ := h
    have hlt := (Node.nested_iff.1 hx).1.nonempty
    have hle := ih hxs
    omega

theorem mono (h : Laid a xs b) (ha : a' ≤ a) (hb : b ≤ b') : Laid a' xs b' := by
  induction xs generalizing a a' with
  | nil => exact Nat.le_trans ha (Nat.le_trans h hb)
  | cons x xs ih => exact ⟨Nat.le_trans ha h.1, h.2.1, ih h.2.2 (Nat.le_refl _)⟩

theorem append (h : Laid a xs b) (h' : Laid b ys d) : Laid a (xs ++ ys) d := by
  induction xs generalizing a with
  | nil => exact h'.mono h (Nat.le_refl _)
  | cons x xs ih => exact ⟨h.1, h.2.1, ih h.2.2⟩

theorem of_append (h : Laid a (xs ++ ys) d) : ∃ b, Laid a xs b ∧ Laid b ys d := by
  induction xs generalizing a with
  | nil => exact ⟨a, Nat.le_refl a, h⟩
  | cons x xs ih =>
    obtain ⟨b, hxs, hys⟩ := ih h.2.2
    exact ⟨b, ⟨h.1, h.2.1, hxs⟩, hys⟩

theorem single (hx : x.Nested) (ha : a ≤ x.start) (hb : x.stop ≤ b) : Laid a [x] b :=
  ⟨ha, hx, hb⟩

/-- A row may begin with its first node. -/
theorem from_first (h : Laid a (x :: xs) b) : Laid x.start (x :: xs) b :=
  ⟨Nat.le_refl _, h.2⟩

/-- A row may end with its last node. -/
theorem to_last (h : Laid a xs b) (hx : xs.getLast? = some x) : Laid a xs x.stop := by
  induction xs generalizing a with
  | nil => cases hx
  | cons y ys ih =>
    cases ys with
    | nil =>
      cases hx
      exact ⟨h.1, h.2.1, Nat.le_refl _⟩
    | cons z zs => exact ⟨h.1, h.2.1, ih h.2.2 (by simpa [List.getLast?_cons] using hx)⟩

theorem inside (h : Laid a xs b) (hx : x ∈ xs) : x.Nested ∧ a ≤ x.start ∧ x.stop ≤ b := by
  induction xs generalizing a with
  | nil => cases hx
  | cons y ys ih =>
    obtain ⟨hstart, hy, hys⟩ := h
    rcases List.mem_cons.1 hx with rfl | hx
    · exact ⟨hy, hstart, hys.le⟩
    · obtain ⟨hnested, hle, hstop⟩ := ih hys hx
      have hlt := (Node.nested_iff.1 hy).1.nonempty
      exact ⟨hnested, by omega, hstop⟩

theorem ordered (h : Laid a xs b) : xs.Pairwise fun p q => p.stop ≤ q.start := by
  induction xs generalizing a with
  | nil => exact .nil
  | cons x xs ih => exact .cons (fun y hy => (h.2.2.inside hy).2.1) (ih h.2.2)

end Laid

/-- A node that covers its parts in a row is nested. -/
theorem Node.nested_of_laid {x : Node} (hlt : x.start < x.stop)
    (h : Laid x.start x.parts x.stop) (hbranch : ∀ b, x ≠ .branch b) : x.Nested :=
  nested_iff.2 ⟨⟨hlt, fun _ hp => (h.inside hp).2, h.ordered, fun b hb => absurd hb (hbranch b)⟩,
    fun _ hp => (h.inside hp).1⟩

/-! ## Spans of two and more -/

/-- Of two spans in order the first one begins what covers both, and the other one ends it. -/
theorem Span.merge_of_ordered {s t : Span} (hs : s.start.offset ≤ s.stop.offset)
    (h : s.stop.offset ≤ t.start.offset) (ht : t.start.offset < t.stop.offset) :
    s.merge t = ⟨s.start, t.stop⟩ := by
  unfold merge
  rw [if_neg (by omega), if_pos (by omega)]

/-- Merging spans in order leads from the first one through the last. -/
theorem Span.foldl_merge {s : Span} {ss : List Statement} {b : Nat}
    (hs : s.start.offset ≤ s.stop.offset) (h : Laid s.stop.offset (ss.map .statement) b) :
    ss.foldl (fun s t => s.merge t.span) s =
      ⟨s.start, (ss.getLast?.elim s Statement.span).stop⟩ := by
  induction ss generalizing s with
  | nil => rfl
  | cons t ss ih =>
    obtain ⟨hle, ht, hss⟩ := h
    have hlt : t.span.start.offset < t.span.stop.offset := (Node.nested_iff.1 ht).1.nonempty
    have hle : s.stop.offset ≤ t.span.start.offset := hle
    have hcover : s.start.offset ≤ t.span.stop.offset := by omega
    rw [List.foldl_cons, merge_of_ordered hs hle hlt,
      ih (s := ⟨s.start, t.span.stop⟩) hcover hss]
    cases hlast : ss.getLast? <;> simp [List.getLast?_cons, hlast]

/-- A branch of statements in a row reaches from the first through the last, and is nested. -/
theorem Laid.branch {first : Statement} {rest : List Statement} {a b : Nat}
    (h : Laid a ((first :: rest).map .statement) b) :
    Laid a [.branch (.ofStatements first rest)] b := by
  have hfirst : first.span.start.offset < first.span.stop.offset :=
    (Node.nested_iff.1 h.2.1).1.nonempty
  have hlast : (first :: rest).getLast? = some (rest.getLast?.getD first) := List.getLast?_cons
  generalize hlast' : rest.getLast?.getD first = last at hlast
  have hspan : (Branch.ofStatements first rest).span = ⟨first.span.start, last.span.stop⟩ := by
    refine (Span.foldl_merge (Nat.le_of_lt hfirst) h.2.2).trans ?_
    rw [← hlast']
    cases rest.getLast? <;> rfl
  have hstart : (Node.branch (.ofStatements first rest)).start = first.span.start.offset :=
    congrArg (·.start.offset) hspan
  have hstop : (Node.branch (.ofStatements first rest)).stop = last.span.stop.offset :=
    congrArg (·.stop.offset) hspan
  have hrow : Laid first.span.start.offset ((first :: rest).map .statement)
      last.span.stop.offset := by
    refine h.from_first.to_last (x := .statement last) ?_
    change ((first :: rest).map Node.statement).getLast? = _
    rw [List.getLast?_map, hlast]
    rfl
  obtain ⟨-, -, hle⟩ := h.inside (List.mem_map_of_mem (List.mem_of_getLast? hlast))
  have hnested : (Node.branch (.ofStatements first rest)).Nested := by
    refine Node.nested_iff.2 ⟨⟨?_, fun p hp => ?_, hrow.ordered, ?_⟩, fun p hp => ?_⟩
    · rw [hstart, hstop]
      exact Nat.lt_of_lt_of_le hfirst hrow.2.2.le
    · rw [hstart, hstop]
      exact (hrow.inside hp).2
    · rintro b hb
      cases hb
      rw [hspan]
      refine ⟨rfl, ?_⟩
      change (first :: rest).getLast?.map _ = _
      rw [hlast]
      rfl
    · exact (hrow.inside hp).1
  exact .single hnested (by rw [hstart]; exact h.1) (by rw [hstop]; exact hle)

end WqSource
