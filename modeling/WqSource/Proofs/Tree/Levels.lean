import WqSource.Proofs.Tree.Erase
import WqSource.Proofs.Tree.Words
import Mathlib.Order.Bounds.Basic

/-!
# How many levels a tree has

An expression by itself has one level. Its operands do not add to that, but what is nested in
it stands one level deeper. The number of levels is a matter of the form of a tree, whatever
its places are, and braces around a tree add one level for each pair of them.

## Main definitions

* `Expr.levels`: the number of levels.
* `Expr.braced`: a function in a function, and so on, around an expression.

## Main statements

* `Expr.levels_le_iff_within`: the number of levels bounds the level of every expression inside.
* `Expr.isGreatest_levels`: it is the greatest of them.
* `Expr.regular_iff_levels`: a regular tree is well shaped and has few levels.
* `Expr.levels_erase`, `Expr.levels_braced`.
-/

namespace WqSource
namespace Expr
variable {n : Nat} {e : Expr}

/-- The number of levels of a tree. -/
def levels (e : Expr) : Nat :=
  (e.operands.attach.map fun x => levels x.1).foldr max
    ((e.nested.attach.map fun x => levels x.1 + 1).foldr max 1)
termination_by sizeOf e
decreasing_by
  · exact sizeOf_lt_of_mem_nested x.2
  · exact sizeOf_lt_of_mem_operands x.2

theorem foldr_max_le {ns : List Nat} {b : Nat} : ns.foldr max b ≤ n ↔ (∀ m ∈ ns, m ≤ n) ∧ b ≤ n := by
  induction ns with
  | nil => simp
  | cons m ns ih => simp [ih, and_assoc]

/-- The levels of a tree are bounded by what bounds those of its parts, with one more level for
each of the nested ones. -/
theorem levels_le_iff : e.levels ≤ n ↔
    (∀ x ∈ e.operands, x.levels ≤ n) ∧ (∀ x ∈ e.nested, x.levels + 1 ≤ n) ∧ 1 ≤ n := by
  rw [levels, foldr_max_le, foldr_max_le]
  simp

/-- An expression with `n` levels has no expression inside that stands `n` levels deeper. -/
theorem levels_le_iff_within : e.levels ≤ n ↔ ∀ (k : Nat) (x : Expr), x.Within k e → k + 1 ≤ n := by
  change _ ↔ e.Everywhere fun k _ => k + 1 ≤ n
  induction e using induction_parts generalizing n with
  | h e operands nested =>
    rw [levels_le_iff, everywhere_iff]
    constructor
    · rintro ⟨hoperands, hnested, hn⟩
      refine ⟨hn, fun x hx => (operands x hx).1 (hoperands x hx), fun x hx k y hy => ?_⟩
      have hx' : x.levels ≤ n - 1 := by
        have := hnested x hx
        omega
      have hk : k + 1 ≤ n - 1 := (nested x hx).1 hx' k y hy
      omega
    · rintro ⟨hn, hoperands, hnested⟩
      refine ⟨fun x hx => (operands x hx).2 (hoperands x hx), fun x hx => ?_, hn⟩
      have hx' : x.levels ≤ n - 1 := (nested x hx).2 fun k y hy => by
        have : k + 1 + 1 ≤ n := hnested x hx k y hy
        omega
      have hone : 0 + 1 + 1 ≤ n := hnested x hx 0 x (.refl x)
      omega

/-- An expression stands at level one, and the number of levels is the greatest level of all that
is inside. -/
theorem isGreatest_levels (e : Expr) :
    IsGreatest {n : Nat | ∃ (k : Nat) (x : Expr), x.Within k e ∧ n = k + 1} e.levels := by
  constructor
  · by_contra hnone
    have hlevels : e.levels ≤ e.levels - 1 := levels_le_iff_within.2 fun k x hx => by
      have hk : k + 1 ≤ e.levels := levels_le_iff_within.1 le_rfl k x hx
      have hne : e.levels ≠ k + 1 := fun h => hnone ⟨k, x, hx, h⟩
      omega
    have hpos : 1 ≤ e.levels := (levels_le_iff.1 le_rfl).2.2
    omega
  · rintro n ⟨k, x, hx, rfl⟩
    exact levels_le_iff_within.1 le_rfl k x hx

/-- A tree is regular if it is well shaped all through and has few levels. -/
theorem regular_iff_levels :
    e.Regular n ↔ (e.Everywhere fun _ x => x.WellShaped) ∧ e.levels ≤ n + 1 := by
  rw [levels_le_iff_within]
  constructor
  · intro h
    refine ⟨fun k x hx => (h k x hx).1, fun k x hx => ?_⟩
    have := (h k x hx).2
    omega
  · rintro ⟨hshape, hlevels⟩ k x hx
    have := hlevels k x hx
    exact ⟨hshape k x hx, by omega⟩

end Expr

/-! ## Places -/

theorem Statement.expression?_erase (s : Statement) :
    s.erase.expression? = s.expression?.map Expr.erase := by
  cases s <;> simp [erase, expression?]

theorem Branch.expressions_erase (b : Branch) :
    b.erase.expressions = b.expressions.map Expr.erase := by
  rw [erase_eq, expressions, expressions, List.map_filterMap]
  change (b.statements.map Statement.erase).filterMap _ = _
  rw [List.filterMap_map]
  exact congrArg (b.statements.filterMap ·) (funext Statement.expression?_erase)

theorem Suffix.argument?_erase (s : Suffix) : s.erase.argument? = s.argument?.map Expr.erase := by
  cases s <;> simp [erase, argument?]

theorem Suffix.indices_erase (s : Suffix) : s.erase.indices = s.indices.map Expr.erase := by
  cases s <;> simp [erase, indices]

theorem Entry.value_erase (e : Entry) : e.erase.value = e.value.erase := by
  cases e
  simp [erase, value]

namespace Expr
variable {n : Nat} {e : Expr}

/-- Places apart, the operands stay. -/
theorem operands_erase (e : Expr) : e.erase.operands = e.operands.map erase := by
  cases e with
  | chain span base suffixes =>
    simp [erase, operands, List.filterMap_map, List.map_filterMap,
      Suffix.argument?_erase]
  | function span params body => cases body <;> simp [erase, operands]
  | returning span value => cases value <;> simp [erase, operands]
  | _ => simp [erase, operands]

/-- Places apart, what is nested stays. -/
theorem nested_erase (e : Expr) : e.erase.nested = e.nested.map erase := by
  cases e with
  | chain span base suffixes =>
    simp [erase, nested, List.flatMap_map, List.map_flatMap, Suffix.indices_erase]
  | function span params body => cases body <;> simp [erase, nested, Branch.expressions_erase]
  | returning span value => cases value <;> simp [erase, nested]
  | dict span entries => simp [erase, nested, Function.comp_def, Entry.value_erase]
  | _ => simp [erase, nested, Branch.expressions_erase]

/-- The number of levels does not depend on places. -/
@[simp] theorem levels_erase (e : Expr) : e.erase.levels = e.levels := by
  induction e using induction_parts with
  | h e operands nested =>
    refine eq_of_forall_ge_iff fun n => ?_
    rw [levels_le_iff, levels_le_iff, operands_erase, nested_erase, List.forall_mem_map,
      List.forall_mem_map]
    refine and_congr (forall₂_congr fun x hx => ?_) (and_congr_left' (forall₂_congr fun x hx => ?_))
    · rw [operands x hx]
    · rw [nested x hx]

/-! ## Braces -/

/-- The expression with the given number of pairs of braces around it. Each pair is a function
without parameters, and what is inside is its only statement. -/
def braced : Nat → Expr → Expr
  | 0, e => e
  | k + 1, e => function default [] (some (.mk default [.expression (braced k e)]))

theorem operands_braced (k : Nat) (e : Expr) : (e.braced (k + 1)).operands = [] := rfl

theorem nested_braced (k : Nat) (e : Expr) : (e.braced (k + 1)).nested = [e.braced k] := rfl

/-- A pair of braces adds a level. -/
@[simp] theorem levels_braced (k : Nat) (e : Expr) : (e.braced k).levels = e.levels + k := by
  induction k with
  | zero => rfl
  | succ k ih =>
    refine eq_of_forall_ge_iff fun n => ?_
    rw [levels_le_iff, operands_braced, nested_braced]
    simp [ih]
    omega

theorem pieces_braced_succ (k : Nat) (e : Expr) : (e.braced (k + 1)).pieces =
    Piece.enclosed .openBrace .closeBrace (e.braced k).pieces := by
  rw [braced, pieces]
  rfl

theorem pieces_braced (k : Nat) (e : Expr) : (e.braced k).pieces =
    List.replicate k (.punct .openBrace) ++ e.pieces ++ List.replicate k (.punct .closeBrace) := by
  induction k with
  | zero => simp [braced]
  | succ k ih =>
    rw [pieces_braced_succ, ih, List.replicate_succ, List.replicate_succ']
    simp [Piece.enclosed]

/-- The text of an expression in braces is the text of the expression, in braces. -/
theorem text_braced (l : Layout) (k : Nat) (e : Expr) : (e.braced k).text l =
    String.ofList (List.replicate k '{') ++ e.text l ++ String.ofList (List.replicate k '}') := by
  have hopen : (List.replicate k (Piece.punct .openBrace)).flatMap l.characters =
      List.replicate k '{' := by
    rw [List.flatMap_replicate]
    exact List.flatten_replicate_singleton
  have hclose : (List.replicate k (Piece.punct .closeBrace)).flatMap l.characters =
      List.replicate k '}' := by
    rw [List.flatMap_replicate]
    exact List.flatten_replicate_singleton
  rw [text, text, Layout.write, Layout.write, pieces_braced, List.flatMap_append,
    List.flatMap_append, hopen, hclose, String.ofList_append, String.ofList_append]

/-- The tokens of an expression in braces are its own, and braces. -/
theorem forall_kinds_braced {P : Token.Kind → Prop} (k : Nat) (hopen : P (.punct .openBrace))
    (hclose : P (.punct .closeBrace)) (h : ∀ t ∈ e.kinds, P t) : ∀ t ∈ (e.braced k).kinds, P t := by
  induction k with
  | zero => exact h
  | succ k ih =>
    rw [kinds, pieces_braced_succ, Piece.kinds_enclosed, List.forall_mem_cons,
      List.forall_mem_append, List.forall_mem_singleton]
    exact ⟨hopen, ih, hclose⟩

/-- Braces around a regular tree make a regular tree with one more level for each pair. -/
theorem Regular.braced (h : e.Regular n) (k : Nat) : (e.braced k).Regular (n + k) := by
  induction k with
  | zero => exact h
  | succ k ih =>
    rw [regular_iff, operands_braced, nested_braced]
    refine ⟨?_, by simp, ?_⟩
    · intro b hb
      cases hb
      exact ⟨by simp [Branch.statements], by simp [Branch.statements, Statement.expression?]⟩
    · rw [List.forall_mem_singleton]
      exact ⟨n + k, rfl, ih⟩

end Expr
end WqSource
